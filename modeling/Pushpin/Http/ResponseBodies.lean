import Pushpin.Http.ClientBody
import Pushpin.Http.Head

namespace PushpinHttp
open PushpinRingBuffer Text

def ClientState.new : ClientState := ⟨.noBody, none, 0, true, false, none⟩

def connectionHas (param : List Byte) (ignoreCase : Bool) (headers : Headers) : Bool :=
  (valuesOf connectionName headers).any fun v => headerContainsParam v param ignoreCase

def readable (headers : Headers) : Bool :=
  (valuesOf contentLengthName headers).all (fun v => (parseAsInt v).isSome) &&
    (valuesOf transferEncodingName headers).all fun v => v = chunkedValue

def announcedSize (code : Nat) (headers : Headers) : BodySize :=
  if bodiless code then .noBody
  else if !(valuesOf transferEncodingName headers).isEmpty then .unknown
  else match (valuesOf contentLengthName headers).getLast?.bind parseAsInt with
    | some len => .known len
    | none => .unknown

def endsWithClose (code : Nat) (headers : Headers) : Bool :=
  !bodiless code && (valuesOf transferEncodingName headers).isEmpty &&
    (valuesOf contentLengthName headers).isEmpty

/-- The options of `Connection` are names without case. Before HTTP/1.1 a connection
    closes unless it is asked not to. -/
def asksToClose (version : Nat) (headers : Headers) : Bool :=
  connectionHas (ascii "close") true headers ||
    (version = 0 && !connectionHas (ascii "keep-alive") true headers)

structure Announced (version code : Nat) (headers : Headers) (state : ClientState) : Prop where
  bodySize : state.bodySize = announcedSize code headers
  chunked : state.bodySize = .unknown →
    state.chunked = !(valuesOf transferEncodingName headers).isEmpty
  persistent : state.persistent = !(asksToClose version headers || endsWithClose code headers)

/-- A response without a body is taken for one whatever its headers are. Any other is
    framed by its headers, and refused when these cannot be read. -/
def Recognised (state : ClientState) (version code : Nat) (headers : Headers) : Prop :=
  match state.processResponse version code headers with
  | .ok state' => Announced version code headers state'
  | .error _ => bodiless code = false ∧ readable headers = false

def frameless (headers : Headers) : Bool :=
  (valuesOf transferEncodingName headers).isEmpty && (valuesOf contentLengthName headers).isEmpty

/-- A `close` in other letters than the lower case has nothing to say: one in these is
    there too, or the connection closes anyhow. -/
def closeSpelled (version code : Nat) (headers : Headers) : Bool :=
  !connectionHas (ascii "close") true headers || connectionHas (ascii "close") false headers ||
    endsWithClose code headers || (version = 0 && !connectionHas (ascii "keep-alive") true headers)

structure Persists (headers : Headers) (before acc : Scan) : Prop where
  keepAlive : acc.keepAlive = (before.keepAlive || connectionHas (ascii "keep-alive") true headers)
  close : acc.close = (before.close || connectionHas (ascii "close") false headers)

theorem connectionHas_cons (param : List Byte) (ignoreCase : Bool) (h : List Byte × List Byte)
    (headers : Headers) : connectionHas param ignoreCase (h :: headers) =
      ((eqIgnoreAsciiCase h.1 connectionName && headerContainsParam h.2 param ignoreCase) ||
        connectionHas param ignoreCase headers) := by
  cases named : eqIgnoreAsciiCase h.1 connectionName <;> simp [connectionHas, valuesOf_cons, named]

theorem header_persists {before acc : Scan} {h : List Byte × List Byte}
    (ok : before.header false h = .ok acc) : Persists [h] before acc := by
  unfold Scan.header at ok
  by_cases length : eqIgnoreAsciiCase h.1 contentLengthName = true
  · have other : eqIgnoreAsciiCase h.1 connectionName = false :=
      eqIgnoreAsciiCase_other (by decide) length
    rw [if_pos length] at ok
    split at ok
    · cases ok
      constructor <;> simp [connectionHas_cons, other] <;> simp [connectionHas, valuesOf]
    · cases ok
  · rw [if_neg length] at ok
    by_cases coding : eqIgnoreAsciiCase h.1 transferEncodingName = true
    · have other : eqIgnoreAsciiCase h.1 connectionName = false :=
        eqIgnoreAsciiCase_other (by decide) coding
      rw [if_pos coding] at ok
      split at ok
      · cases ok
        constructor <;> simp [connectionHas_cons, other] <;> simp [connectionHas, valuesOf]
      · cases ok
    · rw [if_neg coding] at ok
      by_cases connection : eqIgnoreAsciiCase h.1 connectionName = true
      · rw [if_pos connection] at ok
        cases ok
        constructor <;> simp [connectionHas_cons, connection] <;> simp [connectionHas, valuesOf]
      · rw [if_neg connection] at ok
        cases ok
        constructor <;> simp [connectionHas_cons, connection] <;> simp [connectionHas, valuesOf]

theorem headers_persist (headers : Headers) {before acc : Scan}
    (ok : before.headers false headers = .ok acc) : Persists headers before acc := by
  induction headers generalizing before with
  | nil =>
    cases ok
    constructor <;> simp [connectionHas, valuesOf]
  | cons h headers ih =>
    unfold Scan.headers at ok
    cases first : before.header false h with
    | error e =>
      rw [first] at ok
      cases ok
    | ok between =>
      rw [first] at ok
      have here := header_persists first
      have rest := ih ok
      constructor
      · rw [rest.keepAlive, here.keepAlive, connectionHas_cons, connectionHas_cons]
        simp [connectionHas, valuesOf, Bool.or_assoc]
      · rw [rest.close, here.close, connectionHas_cons, connectionHas_cons]
        simp [connectionHas, valuesOf, Bool.or_assoc]

theorem readable_cons (h : List Byte × List Byte) (headers : Headers) :
    readable (h :: headers) = (readable [h] && readable headers) := by
  simp only [readable, valuesOf_cons]
  split <;> split <;> simp [valuesOf, Bool.and_comm, Bool.and_left_comm, Bool.and_assoc]

theorem headers_read (headers : Headers) {before : Scan} {e : HeadError}
    (failed : before.headers false headers = .error e) : readable headers = false := by
  induction headers generalizing before with
  | nil => cases failed
  | cons h headers ih =>
    rw [readable_cons]
    unfold Scan.headers at failed
    cases first : before.header false h with
    | ok between =>
      rw [first] at failed
      rw [ih failed, Bool.and_false]
    | error e' =>
      have unreadable : readable [h] = false := by
        unfold Scan.header at first
        by_cases length : eqIgnoreAsciiCase h.1 contentLengthName = true
        · rw [if_pos length] at first
          split at first
          · cases first
          · next none => simp [readable, valuesOf_cons, length, none]
        · rw [if_neg length] at first
          by_cases coding : eqIgnoreAsciiCase h.1 transferEncodingName = true
          · rw [if_pos coding] at first
            split at first
            · cases first
            · next other => simp [readable, valuesOf_cons, length, coding, other]
          · rw [if_neg coding] at first
            split at first
            · cases first
            · cases first
      rw [unreadable, Bool.false_and]

theorem readable_frameless {headers : Headers} (none : frameless headers = true) :
    readable headers = true := by
  simp only [frameless, Bool.and_eq_true, List.isEmpty_iff] at none
  simp [readable, none]

theorem exact_close {headers : Headers}
    (exactly : connectionHas (ascii "close") false headers = true) :
    connectionHas (ascii "close") true headers = true := by
  simp only [connectionHas, List.any_eq_true] at exactly ⊢
  obtain ⟨v, mem, has⟩ := exactly
  refine ⟨v, mem, ?_⟩
  simp only [headerContainsParam, Bool.and_eq_true, List.any_eq_true, Bool.false_eq_true, if_false,
    if_true, decide_eq_true_eq] at has ⊢
  obtain ⟨utf8, part, mem, text, same⟩ := has
  exact ⟨utf8, part, mem, text, by rw [same, eqIgnoreAsciiCase, decide_eq_true_eq]⟩

section
variable {headers : Headers} {acc : Scan} (scanned : Scanned headers Scan.start acc) (code : Nat)
include scanned code

theorem size_announced : (if acc.chunked then BodySize.unknown
      else match acc.contentLen with
        | some len => .known len
        | none => if bodiless code then .noBody else .unknown) = announcedSize code headers ↔
      (bodiless code = true → frameless headers = true) := by
  have chunked := scanned.chunked
  have contentLen := scanned.contentLen
  simp only [Scan.start, Bool.false_or, Option.or_none] at chunked contentLen
  rw [chunked, contentLen]
  unfold announcedSize frameless
  cases codings : valuesOf transferEncodingName headers with
  | cons v values => cases bodiless code <;> simp
  | nil =>
    cases lengths : valuesOf contentLengthName headers with
    | nil => cases bodiless code <;> simp
    | cons v values =>
      obtain ⟨n, parsed⟩ : ∃ n, (v :: values).getLast?.bind parseAsInt = some n := by
        rw [List.getLast?_eq_getLast_of_ne_nil (List.cons_ne_nil v values), Option.bind_some]
        exact scanned.lengths _ (by rw [lengths]; exact List.getLast_mem _)
      rw [parsed]
      cases bodiless code <;> simp

theorem close_announced : (decide (announcedSize code headers = .unknown) && !acc.chunked) =
    endsWithClose code headers := by
  have chunked := scanned.chunked
  simp only [Scan.start, Bool.false_or] at chunked
  rw [chunked]
  unfold announcedSize endsWithClose
  cases bodyless : bodiless code with
  | true => simp
  | false =>
    cases codings : valuesOf transferEncodingName headers with
    | cons v values => simp
    | nil =>
      cases lengths : valuesOf contentLengthName headers with
      | nil => simp
      | cons v values =>
        obtain ⟨n, parsed⟩ : ∃ n, (v :: values).getLast?.bind parseAsInt = some n := by
          rw [List.getLast?_eq_getLast_of_ne_nil (List.cons_ne_nil v values), Option.bind_some]
          exact scanned.lengths _ (by rw [lengths]; exact List.getLast_mem _)
        rw [parsed]
        simp

end

theorem persistent_announced (version code : Nat) (headers : Headers) :
    (if version ≥ 1 then !connectionHas (ascii "close") false headers && !endsWithClose code headers
      else connectionHas (ascii "keep-alive") true headers && !connectionHas (ascii "close")
        false headers &&
        !endsWithClose code headers) =
          !(asksToClose version headers || endsWithClose code headers) ↔
      closeSpelled version code headers = true := by
  have exactly := @exact_close headers
  unfold asksToClose closeSpelled
  rcases Nat.eq_zero_or_pos version with rfl | later
  · simp only [ge_iff_le, decide_true, Bool.true_and]
    revert exactly
    cases connectionHas (ascii "close") true headers <;> cases connectionHas
      (ascii "close") false headers <;>
      cases connectionHas (ascii "keep-alive") true headers <;> cases endsWithClose code headers
        <;> simp
  · have new : decide (version = 0) = false := decide_eq_false (Nat.pos_iff_ne_zero.mp later)
    rw [if_pos (show version ≥ 1 from later), new]
    revert exactly
    cases connectionHas (ascii "close") true headers <;> cases connectionHas
      (ascii "close") false headers <;>
      cases endsWithClose code headers <;> simp

/-- A response is recognised but for one without a body that has a length or a coding
    nonetheless, and for a `close` in other letters than the code looks for. -/
theorem response_recognised_iff (state : ClientState) (version code : Nat) (headers : Headers) :
    Recognised state version code headers ↔
      (bodiless code = true → frameless headers = true) ∧
        (readable headers = true → closeSpelled version code headers = true) := by
  unfold Recognised
  cases scan : Scan.start.headers false headers with
  | error e =>
    have unreadable := headers_read headers scan
    simp only [ClientState.processResponse, scan, unreadable, and_true, Bool.false_eq_true,
      false_imp_iff]
    constructor
    · intro body
      simp [body]
    · intro none
      cases bodyless : bodiless code with
      | false => rfl
      | true =>
        rw [readable_frameless (none bodyless)] at unreadable
        cases unreadable
  | ok acc =>
    have scanned := scan_headers false headers scan
    have persists := headers_persist headers scan
    have chunked := scanned.chunked
    have keepAlive := persists.keepAlive
    have close := persists.close
    simp only [Scan.start, Bool.false_or] at chunked keepAlive close
    have readable : readable headers = true := by
      simp only [PushpinHttp.readable, Bool.and_eq_true, List.all_eq_true, decide_eq_true_eq]
      refine ⟨fun v mem => ?_, scanned.codings⟩
      obtain ⟨n, parsed⟩ := scanned.lengths v mem
      rw [parsed]
      rfl
    have size := size_announced scanned code
    have ends := close_announced scanned code
    simp only [ClientState.processResponse, scan, readable, true_imp_iff]
    rw [← persistent_announced version code headers, ← keepAlive, ← close]
    constructor
    · intro announced
      have none := size.mp announced.bodySize
      refine ⟨none, ?_⟩
      have persistent := announced.persistent
      rw [← ends, ← size.mpr none] at persistent ⊢
      exact persistent
    · rintro ⟨none, persistent⟩
      refine ⟨size.mpr none, fun _ => chunked, ?_⟩
      rw [← ends, ← size.mpr none] at persistent ⊢
      exact persistent

/-- A `204` with a length is waited for, and a `304` in chunks. `Connection: Close` keeps
    the connection open. -/
theorem bodyless_responses_are_missed :
    ¬ Recognised ClientState.new 1 204 [(ascii "Content-Length", ascii "5")] ∧
    ¬ Recognised ClientState.new 1 304 [(ascii "Transfer-Encoding", ascii "chunked")] ∧
    ¬ Recognised ClientState.new 1 200 [(ascii "Content-Length", ascii "0"),
      (ascii "Connection", ascii "Close")] ∧
    (match ClientState.new.processResponse 1 204 [(ascii "Content-Length", ascii "5")] with
      | .ok state => state.processKnownSize [] 100 false = some (.ok (.needBytes state))
      | .error _ => False) := by
  have length : ClientState.new.processResponse 1 204 [(ascii "Content-Length", ascii "5")] =
      .ok ⟨.known 5, some 5, 0, true, false, none⟩ := by decide +kernel
  have coding :
    ClientState.new.processResponse 1 304 [(ascii "Transfer-Encoding", ascii "chunked")] =
      .ok ⟨.unknown, none, 0, true, true, none⟩ := by decide +kernel
  have option : ClientState.new.processResponse 1 200
      [(ascii "Content-Length", ascii "0"), (ascii "Connection", ascii "Close")] =
        .ok ⟨.known 0, some 0, 0, true, false, none⟩ := by decide +kernel
  simp only [Recognised, length, coding, option]
  refine ⟨fun announced => ?_, fun announced => ?_, fun announced => ?_, by decide⟩
  · exact absurd announced.bodySize (by decide +kernel)
  · exact absurd announced.bodySize (by decide +kernel)
  · exact absurd announced.persistent (by decide +kernel)

end PushpinHttp
