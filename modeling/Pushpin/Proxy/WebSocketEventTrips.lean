import Pushpin.Proxy.WebSocketEvents

namespace PushpinWebSocketOverHttp
open PushpinVariant (Bytes)
open PushpinHttpHeaders (ascii)

theorem hexDigit_digitChar : ∀ d < 16, hexDigit (UInt8.ofNat (Nat.digitChar d).toNat) = some d := by
  decide

theorem hexLength_of_lt {n : Nat} (digit : n < 16) :
    hexLength n = [UInt8.ofNat (Nat.digitChar n).toNat] := by
  rw [hexLength, Nat.toDigits_of_lt_base digit]
  rfl

theorem hexLength_of_le {n : Nat} (more : 16 ≤ n) :
    hexLength n = hexLength (n / 16) ++ [UInt8.ofNat (Nat.digitChar (n % 16)).toNat] := by
  rw [hexLength, Nat.toDigits_of_base_le (by decide) more, List.map_append]
  rfl

theorem hexDigit_of_mem {n : Nat} {b : UInt8} (member : b ∈ hexLength n) :
    ∃ d, hexDigit b = some d := by
  induction n using Nat.strong_induction_on with
  | _ n ih =>
    rcases Nat.lt_or_ge n 16 with digit | more
    · rw [hexLength_of_lt digit, List.mem_singleton] at member
      exact ⟨n, by rw [member, hexDigit_digitChar n digit]⟩
    · rw [hexLength_of_le more] at member
      rcases List.mem_append.mp member with front | last
      · exact ih (n / 16) (by omega) front
      · rw [List.mem_singleton] at last
        exact ⟨n % 16, by rw [last, hexDigit_digitChar _ (by omega)]⟩

theorem not_mem_hexLength (n : Nat) {b : UInt8} (other : hexDigit b = none) : b ∉ hexLength n := by
  intro member
  obtain ⟨d, digit⟩ := hexDigit_of_mem member
  rw [other] at digit
  cases digit

theorem hexNumber_append {front : Bytes} (digits : ∀ b ∈ front, ∃ d, hexDigit b = some d) (n : Nat)
    (rest : Bytes) : hexNumber n (front ++ rest) = hexNumber (hexNumber n front).1 rest := by
  induction front generalizing n with
  | nil => rfl
  | cons b front ih =>
    obtain ⟨d, digit⟩ := digits b List.mem_cons_self
    rw [List.cons_append, hexNumber, hexNumber, digit]
    exact ih (fun c member => digits c (List.mem_cons_of_mem b member)) _

theorem hexNumber_hexLength (n : Nat) : hexNumber 0 (hexLength n) = (n, []) := by
  induction n using Nat.strong_induction_on with
  | _ n ih =>
    rcases Nat.lt_or_ge n 16 with digit | more
    · rw [hexLength_of_lt digit, hexNumber, hexDigit_digitChar n digit]
      simp [hexNumber]
    · rw [hexLength_of_le more, hexNumber_append (fun b member => hexDigit_of_mem member),
        ih (n / 16) (by omega), hexNumber, hexDigit_digitChar _ (by omega)]
      have whole : n / 16 * 16 + n % 16 = n := by omega
      simp [hexNumber, whole]

theorem hexToInt_hexLength {n : Nat} (small : (n : Int) ≤ INT_MAX) :
    hexToInt (hexLength n) = some (n : Int) := by
  have some_ : hexLength n ≠ [] := by simp [hexLength]
  refine hexToInt_of_hexValue _ _ ?_ small
  simp [hexValue, hexNumber_hexLength, some_]

theorem encodeEvents_events {toInt : Bytes → Option Int} (reads : ∀ n : Nat, n ≤ INT_MAX →
    toInt (hexLength n) = some n)
    {events : List Event} (typed : ∀ e ∈ events, 32 ∉ e.type ∧ 13 ∉ e.type)
    (small : (encodeEvents events).length ≤ INT_MAX) :
    Events toInt (encodeEvents events) events := by
  induction events with
  | nil => exact .nil
  | cons e events ih =>
    obtain ⟨type, content⟩ := e
    obtain ⟨noSpace, noReturn⟩ := typed _ List.mem_cons_self
    have lengths : (encodeEvents (⟨type, content⟩ :: events)).length =
        (encodeEvent ⟨type, content⟩).length + (encodeEvents events).length := by
      simp [encodeEvents]
    have more := ih (fun e member => typed e (List.mem_cons_of_mem _ member)) (by omega)
    cases content with
    | none =>
      have written :
          encodeEvents (⟨type, none⟩ :: events) = type ++ 13 :: 10 :: encodeEvents events := by
        simp [encodeEvents, encodeEvent, crlf]
      rw [written]
      exact .plain (nextLine_none noReturn) noSpace more
    | some content =>
      have written : encodeEvents (⟨type, some content⟩ :: events) =
          (type ++ 32 :: hexLength content.length) ++ 13 :: 10 ::
            (content ++ 13 :: 10 :: encodeEvents events) := by
        simp [encodeEvents, encodeEvent, crlf]
      have oneLine : nextLine (type ++ 32 :: hexLength content.length) = none := by
        apply nextLine_none
        simp [noReturn, not_mem_hexLength content.length (b := 13) (by decide)]
      have fits : (content.length : Int) ≤ INT_MAX := by
        have shorter := congrArg List.length written
        simp only [List.length_append, List.length_cons] at shorter
        omega
      rw [written]
      exact .sized oneLine noSpace (reads _ fits) more

/-- The events that are read from what is written are those that were written. -/
theorem decode_encode {toInt : Bytes → Option Int} (reads : ∀ n : Nat, n ≤ INT_MAX →
    toInt (hexLength n) = some n)
    {events : List Event} (typed : ∀ e ∈ events, 32 ∉ e.type ∧ 13 ∉ e.type)
    (small : (encodeEvents events).length ≤ INT_MAX) :
    ∃ fuel, decodeEvents toInt fuel (encodeEvents events) = some (.ok events) := by
  have read := encodeEvents_events reads typed small
  exact ⟨(encodeEvents events).length + 1,
    @decodeFrom_events toInt _ small events _ 0 read (Nat.zero_le _) (by omega) []⟩

/-- A content that looks like an event, an empty one, and none. -/
theorem decode_encode_example : ∃ fuel, decodeEvents hexToInt fuel (encodeEvents
      [⟨ascii "TEXT", some (ascii "5\r\nTEXT 1\r\n")⟩, ⟨ascii "BINARY", some []⟩,
      ⟨ascii "PING", none⟩]) =
    some (.ok [⟨ascii "TEXT", some (ascii "5\r\nTEXT 1\r\n")⟩, ⟨ascii "BINARY", some []⟩,
      ⟨ascii "PING", none⟩]) :=
  decode_encode (fun _ fits => hexToInt_hexLength fits) (by decide) (by decide)

end PushpinWebSocketOverHttp
