import Mathlib.Data.List.Infix
import Pushpin.Foundations.Outcome

/-!
`DeflateEncoder` of `connmgr/websocket.rs`: what the compressor writes goes out
without the four bytes that end a sync flush. The compressor is a parameter, with
a state of its own. An output buffer is its length, and what is written into it
is a list of bytes.
-/
namespace PushpinDeflate

abbrev Byte := UInt8

def syncMarker : List Byte := [0x00, 0x00, 0xff, 0xff]

def encMinOutputSize : Nat := 7

def encNextBufSize : Nat := syncMarker.length + encMinOutputSize

structure Deflated (σ : Type) where
  state : σ
  consumed : Nat
  output : List Byte

/-- The library's `deflate` on a state, an input, the length of the output buffer
    and whether to sync flush. `none` is a status other than `Ok` and `Buf`. -/
abbrev Deflate (σ : Type) := σ → List Byte → Nat → Bool → Option (Deflated σ)

variable {σ : Type}

def deflateHelper (d : Deflate σ) (compressor : σ) (input : List Byte) (output : Nat)
    (sync : Bool) : Outcome Unit (Deflated σ) :=
  if output < encMinOutputSize then .panics
  else
    match d compressor input output sync with
    | none => .fails ()
    | some result =>
      if input.length < result.consumed ∨ output < result.output.length then .panics
      else if sync = true ∧ result.output = [] then .fails ()
      else .returns result

def endsWithMarker (buf : List Byte) : Bool := syncMarker.isSuffixOf buf

structure DeflateEncoder (σ : Type) where
  enc : σ
  nextBuf : List Byte
  flushing : Bool

namespace DeflateEncoder

def new (enc : σ) : DeflateEncoder σ := ⟨enc, [], false⟩

def flushes (e : DeflateEncoder σ) (src : List Byte) (last : Bool) : Bool :=
  e.flushing || (src.isEmpty && last)

def intoDest (e : DeflateEncoder σ) (flushing : Bool) (dest : Nat) : Bool :=
  !(flushing && endsWithMarker e.nextBuf) && decide (e.nextBuf.length + encMinOutputSize ≤ dest)

def takeSize (e : DeflateEncoder σ) (flushing : Bool) (dest : Nat) : Nat :=
  if e.intoDest flushing dest then e.nextBuf.length
    else min (e.nextBuf.length - syncMarker.length) dest

def held (e : DeflateEncoder σ) (flushing : Bool) (dest : Nat) : List Byte :=
  e.nextBuf.drop (e.takeSize flushing dest)

def canEncode (e : DeflateEncoder σ) (flushing : Bool) (dest : Nat) : Bool :=
  e.intoDest flushing dest || (!(flushing && endsWithMarker e.nextBuf) &&
    decide (encMinOutputSize ≤ encNextBufSize - (e.held flushing dest).length))

def outputLen (e : DeflateEncoder σ) (flushing : Bool) (dest : Nat) : Nat :=
  if e.intoDest flushing dest then dest - e.takeSize flushing dest
  else encNextBufSize - (e.held flushing dest).length

/-- Where what the compressor wrote goes: the ending bytes are kept back. -/
def place (e : DeflateEncoder σ) (flushing : Bool) (dest : Nat) (output : List Byte) :
    Outcome Unit (List Byte × List Byte) :=
  if e.intoDest flushing dest then
    if e.held flushing dest ≠ [] then .panics
    else
      let keep := min syncMarker.length output.length
      .returns (output.take (output.length - keep), output.drop (output.length - keep))
  else
    let nextBuf := e.held flushing dest ++ output
    let size := min (nextBuf.length - syncMarker.length) (dest - e.takeSize flushing dest)
    .returns (nextBuf.take size, nextBuf.drop size)

def complete (enc : σ) (nextBuf : List Byte) (flushing : Bool) :
    Outcome Unit (DeflateEncoder σ × Bool) :=
  if flushing && endsWithMarker nextBuf && decide (nextBuf.length = syncMarker.length) then
    if nextBuf ≠ syncMarker then .panics else .returns (⟨enc, [], false⟩, true)
  else .returns (⟨enc, nextBuf, flushing⟩, false)

def encodeStep (d : Deflate σ) (e : DeflateEncoder σ) (src : List Byte) (last : Bool) (dest : Nat) :
    Outcome Unit (DeflateEncoder σ × Nat × List Byte × Bool) :=
  if e.flushing = true ∧ (src ≠ [] ∨ last = false) then .fails ()
  else
    let flushing := e.flushes src last
    let taken := e.nextBuf.take (e.takeSize flushing dest)
    if e.canEncode flushing dest then do
      let status ← deflateHelper d e.enc src (e.outputLen flushing dest) flushing
      let (written, nextBuf) ← e.place flushing dest status.output
      let (e, endAck) ← complete status.state nextBuf flushing
      return (e, status.consumed, taken ++ written, endAck)
    else do
      let (e, endAck) ← complete e.enc (e.held flushing dest) flushing
      return (e, 0, taken, endAck)

def encode (d : Deflate σ) (e : DeflateEncoder σ) (src : List Byte) (last : Bool) (dest : Nat) :
    Outcome Unit (DeflateEncoder σ × Nat × List Byte × Bool) := do
  let (e, read, written, endAck) ← e.encodeStep d src last dest
  if src ≠ [] ∧ read = src.length ∧ last = true ∧ endAck = false then
    let (e, r, w, ea) ← e.encodeStep d [] last (dest - written.length)
    if r ≠ 0 then .panics
    else return (e, read, written ++ w, ea)
  else return (e, read, written, endAck)

end DeflateEncoder

structure Sending (σ : Type) where
  encoder : DeflateEncoder σ
  message : List Byte
  out : List Byte
  ended : Bool

structure Call where
  src : Nat
  last : Bool
  dest : Nat
  deriving DecidableEq, Repr

namespace Sending

def start (enc : σ) (message : List Byte) : Sending σ := ⟨.new enc, message, [], false⟩

def step (d : Deflate σ) (s : Sending σ) (call : Call) : Outcome Unit (Sending σ) := do
  let (e, read, written, endAck) ← s.encoder.encode d (s.message.take call.src) call.last call.dest
  return ⟨e, s.message.drop read, s.out ++ written, endAck⟩

def run (d : Deflate σ) (s : Sending σ) : List Call → Outcome Unit (Sending σ)
  | [] => .returns s
  | call :: calls => do
    let s ← s.step d call
    s.run d calls

/-- `end` comes with all that is left of the message, and stays set. -/
def possible (s : Sending σ) (call : Call) : Bool :=
  !s.ended && (!call.last || decide (s.message.length ≤ call.src)) &&
    (!s.encoder.flushing || call.last)

end Sending

/-- What the compressor is relied on for. `total` is all that it writes from a
    state for an input and a sync flush behind it, whatever calls the input comes
    in: a call without a flush writes a beginning of it, and so does a call that
    flushes, until nothing is left. `midFlush` is whether a flush has begun and has
    something left to write. -/
structure Behaves (d : Deflate σ) (midFlush : σ → Bool) (total : σ → List Byte → List Byte) :
    Prop where
  feeds : ∀ s input output, midFlush s = false → encMinOutputSize ≤ output →
    ∃ r, d s input output false = some r ∧ r.consumed ≤ input.length ∧ r.output.length ≤ output ∧
      midFlush r.state = false ∧
      ∀ more, total s (input ++ more) = r.output ++ total r.state (input.drop r.consumed ++ more)
  flushes : ∀ s output, encMinOutputSize ≤ output →
    ∃ r rest, d s [] output true = some r ∧ r.consumed = 0 ∧ r.output ≠ [] ∧
      r.output.length ≤ output ∧
      total s [] = r.output ++ rest ∧ midFlush r.state = decide (rest ≠ []) ∧
        (rest ≠ [] → total r.state [] = rest)

section Condition
variable (d : Deflate σ) (total : σ → List Byte → List Byte)

/-- Whether the marker is a true sign in this step. The bytes that are held back
    when flushing begins must not end with it. While flushing, what stays held
    back and what the compressor writes behind it must end with the marker exactly
    if that ends the flush. -/
def spared (e : DeflateEncoder σ) (src : List Byte) (last : Bool) (dest : Nat) : Bool :=
  !e.flushes src last ||
    (e.flushing || !endsWithMarker e.nextBuf) &&
      (!e.canEncode true dest ||
        match d e.enc [] (e.outputLen true dest) true with
        | some r => endsWithMarker (e.held true dest ++ r.output) == decide
            (total e.enc [] = r.output)
        | none => true)

def sparedCall (s : Sending σ) (call : Call) : Bool :=
  let src := s.message.take call.src
  spared d total s.encoder src call.last call.dest &&
    match s.encoder.encodeStep d src call.last call.dest with
    | .returns (e, read, written, endAck) =>
      if src ≠ [] ∧ read = src.length ∧ call.last = true ∧ endAck = false then
        spared d total e [] call.last (call.dest - written.length)
      else true
    | _ => true

def along (check : Sending σ → Call → Bool) (s : Sending σ) : List Call → Bool
  | [] => true
  | call :: calls => check s call &&
    match s.step d call with
    | .returns s => along check s calls
    | _ => true

end Condition

section Marker
variable {buf : List Byte}

theorem endsWithMarker_iff : endsWithMarker buf = true ↔ ∃ front, buf = front ++ syncMarker := by
  rw [endsWithMarker, List.isSuffixOf_iff_suffix]
  constructor
  · rintro ⟨front, eq⟩
    exact ⟨front, eq.symm⟩
  · rintro ⟨front, eq⟩
    exact ⟨front, eq.symm⟩

theorem endsWithMarker_drop {n : Nat} (enough : n ≤ buf.length - syncMarker.length) :
    endsWithMarker (buf.drop n) = endsWithMarker buf := by
  rw [Bool.eq_iff_iff, endsWithMarker, endsWithMarker, List.isSuffixOf_iff_suffix,
    List.isSuffixOf_iff_suffix]
  constructor
  · exact fun ends => ends.trans (List.drop_suffix n buf)
  · intro ends
    have size := ends.length_le
    refine List.suffix_of_suffix_length_le ends (List.drop_suffix n buf) ?_
    rw [List.length_drop]
    omega

theorem endsWithMarker_whole (ends : endsWithMarker buf = true)
    (size : buf.length = syncMarker.length) : buf = syncMarker := by
  obtain ⟨front, eq⟩ := endsWithMarker_iff.mp ends
  rw [eq, List.length_append] at size
  obtain rfl := List.eq_nil_of_length_eq_zero (by omega : front.length = 0)
  exact eq

end Marker

namespace DeflateEncoder
variable {e : DeflateEncoder σ} {flushing : Bool} {dest : Nat}

theorem takeSize_le : e.takeSize flushing dest ≤ dest := by
  unfold takeSize
  split
  · rename_i direct
    simp only [intoDest, Bool.and_eq_true, decide_eq_true_eq] at direct
    omega
  · exact Nat.min_le_right _ _

theorem outputLen_enough (can : e.canEncode flushing dest = true) :
    encMinOutputSize ≤ e.outputLen flushing dest := by
  unfold outputLen
  unfold canEncode at can
  split
  · rename_i direct
    rw [takeSize, if_pos direct]
    simp only [intoDest, Bool.and_eq_true, decide_eq_true_eq] at direct
    omega
  · rename_i aside
    rw [Bool.not_eq_true] at aside
    rw [aside, Bool.false_or, Bool.and_eq_true, decide_eq_true_eq] at can
    exact can.2

/-- Bytes change places and none is lost; what is kept back ends with the marker
    if what it is taken from does. -/
theorem place_spec (fits : e.nextBuf.length ≤ encNextBufSize) {output : List Byte}
    (short : output.length ≤ e.outputLen flushing dest) :
    ∃ written nextBuf, e.place flushing dest output = .returns (written, nextBuf) ∧
      e.nextBuf.take (e.takeSize flushing dest) ++ (written ++ nextBuf) = e.nextBuf ++ output ∧
      (e.nextBuf.take (e.takeSize flushing dest) ++ written).length ≤ dest ∧
      nextBuf.length ≤ encNextBufSize ∧
      endsWithMarker nextBuf = endsWithMarker (e.held flushing dest ++ output) := by
  have taken := @takeSize_le σ e flushing dest
  by_cases direct : e.intoDest flushing dest = true
  · have all : e.takeSize flushing dest = e.nextBuf.length := if_pos direct
    have none : e.held flushing dest = [] := by rw [held, all, List.drop_length]
    have room := short
    rw [outputLen, if_pos direct, all] at room
    refine ⟨output.take (output.length - min syncMarker.length output.length),
      output.drop (output.length - min syncMarker.length output.length), ?_, ?_, ?_, ?_, ?_⟩
    · rw [place, if_pos direct, if_neg (not_not_intro none)]
    · rw [all, List.take_length, List.take_append_drop]
    · rw [all, List.take_length, List.length_append, List.length_take]
      omega
    · rw [List.length_drop]
      have four : syncMarker.length ≤ encNextBufSize := by decide
      omega
    · rw [none, List.nil_append, endsWithMarker_drop]
      omega
  · have size : (e.held flushing dest).length ≤ encNextBufSize := by
      rw [held, List.length_drop]
      omega
    rw [outputLen, if_neg direct] at short
    refine ⟨(e.held flushing dest ++ output).take
      (min ((e.held flushing dest ++ output).length - syncMarker.length)
        (dest - e.takeSize flushing dest)),
      (e.held flushing dest ++ output).drop
        (min ((e.held flushing dest ++ output).length - syncMarker.length)
        (dest - e.takeSize flushing dest)), ?_, ?_, ?_, ?_, ?_⟩
    · rw [place, if_neg direct]
    · rw [List.take_append_drop, ← List.append_assoc, held, List.take_append_drop]
    · rw [List.length_append, List.length_take, List.length_take]
      omega
    · rw [List.length_drop, List.length_append]
      omega
    · exact endsWithMarker_drop (Nat.min_le_left _ _)

theorem held_marker (aside : e.intoDest flushing dest = false) :
    endsWithMarker (e.held flushing dest) = endsWithMarker e.nextBuf := by
  rw [held, takeSize, aside]
  exact endsWithMarker_drop (Nat.min_le_left _ _)

/-- After the recheck: either the marker alone was held back and is dropped, or
    nothing has changed. -/
theorem complete_spec (enc : σ) (nextBuf : List Byte) (flushing : Bool) :
    (flushing = true ∧ nextBuf = syncMarker ∧
    complete enc nextBuf flushing = .returns (⟨enc, [], false⟩, true)) ∨
      complete enc nextBuf flushing = .returns (⟨enc, nextBuf, flushing⟩, false) := by
  by_cases concluded :
    (flushing && endsWithMarker nextBuf && decide (nextBuf.length = syncMarker.length)) = true
  · simp only [Bool.and_eq_true, decide_eq_true_eq] at concluded
    have marker := endsWithMarker_whole concluded.1.2 concluded.2
    refine Or.inl ⟨concluded.1.1, marker, ?_⟩
    rw [complete, if_pos (by simpa using concluded), if_neg (not_not_intro marker)]
  · exact Or.inr (by rw [complete, if_neg concluded])

end DeflateEncoder

section Runs
variable {d : Deflate σ} {midFlush : σ → Bool} {total : σ → List Byte → List Byte}
  {whole : List Byte}

/-- Nothing of the whole output is lost or doubled: it has gone out, is held back
    or is still to come from the compressor. -/
structure Kept (midFlush : σ → Bool) (total : σ → List Byte → List Byte) (whole : List Byte)
    (e : DeflateEncoder σ) (message out : List Byte) : Prop where
  fits : e.nextBuf.length ≤ encNextBufSize
  feeding : e.flushing = false → midFlush e.enc = false ∧
    out ++ (e.nextBuf ++ total e.enc message) = whole
  flushing : e.flushing = true → message = [] ∧
    if endsWithMarker e.nextBuf then midFlush e.enc = false ∧ out ++ e.nextBuf = whole
    else out ++ (e.nextBuf ++ total e.enc []) = whole

structure Stepped (midFlush : σ → Bool) (total : σ → List Byte → List Byte)
    (whole message out src : List Byte) (dest : Nat) (flushing : Bool) (e : DeflateEncoder σ)
    (read : Nat) (written : List Byte) (endAck : Bool) :
    Prop where
  reads : read ≤ src.length
  fits : written.length ≤ dest
  going : endAck = false → Kept midFlush total whole e (message.drop read) (out ++ written) ∧
    e.flushing = flushing
  concluded : endAck = true → out ++ written ++ syncMarker = whole ∧ e = .new e.enc ∧
    midFlush e.enc = false

theorem deflateHelper_ok {compressor : σ} {input : List Byte} {output : Nat} {sync : Bool}
    {r : Deflated σ} (enough : encMinOutputSize ≤ output)
    (ran : d compressor input output sync = some r)
    (reads : r.consumed ≤ input.length) (fits : r.output.length ≤ output) (progress : sync = true →
    r.output ≠ []) :
    deflateHelper d compressor input output sync = .returns r := by
  rw [deflateHelper, if_neg (by omega), ran]
  dsimp only
  rw [if_neg (by omega), if_neg fun both => progress both.1 both.2]

variable {e : DeflateEncoder σ} {message out src : List Byte} {last : Bool} {dest : Nat}

theorem feeding_step (behaves : Behaves d midFlush total)
    (kept : Kept midFlush total whole e message out) (front : src <+: message)
    (idle : e.flushes src last = false) :
    ∃ e' read written, e.encodeStep d src last dest = .returns (e', read, written, false) ∧
      Stepped midFlush total whole message out src dest false e' read written false := by
  have feeding : e.flushing = false := ((Bool.or_eq_false_iff).mp idle).1
  obtain ⟨calm, whole_eq⟩ := kept.feeding feeding
  have open_ : ¬ (e.flushing = true ∧ (src ≠ [] ∨ last = false)) := by
    rw [feeding]
    exact fun both => by cases both.1
  have going : ∀ (enc : σ) (nextBuf : List Byte),
      DeflateEncoder.complete enc nextBuf false = .returns (⟨enc, nextBuf, false⟩, false) :=
        fun _ _ => rfl
  by_cases can : e.canEncode false dest = true
  · obtain ⟨r, ran, reads, short, still, split⟩ :=
      behaves.feeds e.enc src _ calm (e.outputLen_enough can)
    obtain ⟨written, nextBuf, placed, moved, fits, small, -⟩ := e.place_spec kept.fits short
    obtain ⟨more, rfl⟩ := front
    have helped := deflateHelper_ok (e.outputLen_enough can) ran reads short fun flush => by
      cases flush
    refine ⟨⟨r.state, nextBuf, false⟩, r.consumed,
      e.nextBuf.take (e.takeSize false dest) ++ written, ?_, ?_⟩
    · rw [DeflateEncoder.encodeStep, if_neg open_, idle]
      dsimp only
      rw [if_pos can, helped, Outcome.returns_bind, placed, Outcome.returns_bind]
      dsimp only
      rw [going]
      rfl
    · constructor
      · exact reads
      · exact fits
      · intro _
        refine ⟨⟨small, fun _ => ⟨still, ?_⟩, fun flush => by cases flush⟩, rfl⟩
        dsimp only
        rw [← whole_eq, split, List.drop_append_of_le_length reads, ← List.append_assoc e.nextBuf,
          ← moved]
        simp only [List.append_assoc]
      · exact fun ack => by cases ack
  · refine ⟨⟨e.enc, e.held false dest, false⟩, 0, e.nextBuf.take (e.takeSize false dest), ?_, ?_⟩
    · rw [DeflateEncoder.encodeStep, if_neg open_, idle]
      dsimp only
      rw [if_neg can, going]
      rfl
    · constructor
      · exact Nat.zero_le _
      · rw [List.length_take]
        have le := @DeflateEncoder.takeSize_le σ e false dest
        omega
      · intro _
        refine ⟨⟨?_, fun _ => ⟨calm, ?_⟩, fun flush => by cases flush⟩, rfl⟩
        · have fits := kept.fits
          rw [DeflateEncoder.held, List.length_drop]
          omega
        · rw [← whole_eq, List.drop_zero, List.append_assoc, ← List.append_assoc (e.nextBuf.take _),
            DeflateEncoder.held, List.take_append_drop]
      · exact fun ack => by cases ack

theorem flushing_step (behaves : Behaves d midFlush total)
    (fits : e.nextBuf.length ≤ encNextBufSize)
    (state : if endsWithMarker e.nextBuf then midFlush e.enc = false ∧ out ++ e.nextBuf = whole
      else out ++ (e.nextBuf ++ total e.enc []) = whole)
    (flush : e.flushes [] last = true) (stays : e.flushing = true → last = true)
    (safe : spared d total e [] last dest = true) :
    ∃ e' read written endAck, e.encodeStep d [] last dest = .returns (e', read, written, endAck) ∧
      Stepped midFlush total whole [] out [] dest true e' read written endAck := by
  have open_ : ¬ (e.flushing = true ∧ (([] : List Byte) ≠ [] ∨ last = false)) := by
    rintro ⟨flushing, nonempty | unset⟩
    · exact nonempty rfl
    · rw [stays flushing] at unset
      cases unset
  rw [spared, flush, Bool.not_true, Bool.false_or, Bool.and_eq_true] at safe
  have le := @DeflateEncoder.takeSize_le σ e true dest
  by_cases can : e.canEncode true dest = true
  · obtain ⟨r, rest, ran, none, progress, short, split, calm, later⟩ :=
      behaves.flushes e.enc _ (e.outputLen_enough can)
    have finished : total e.enc [] = r.output → midFlush r.state = false := by
      intro all
      rw [calm, List.append_right_eq_self.mp (split.symm.trans all)]
      rfl
    obtain ⟨written, nextBuf, placed, moved, room, small, marker⟩ := e.place_spec fits short
    have sign := safe.2
    rw [can, ran, Bool.not_true, Bool.false_or, beq_iff_eq, ← marker] at sign
    have unmarked : endsWithMarker e.nextBuf = false := by
      rw [← Bool.not_eq_true]
      intro marked
      simp [DeflateEncoder.canEncode, DeflateEncoder.intoDest, marked] at can
    rw [unmarked, if_neg Bool.false_ne_true] at state
    have helped :=
      deflateHelper_ok (e.outputLen_enough can) ran (by rw [none]; exact Nat.zero_le _) short
        fun _ => progress
    have step : e.encodeStep d [] last dest = (do
        let (e', endAck) ← DeflateEncoder.complete r.state nextBuf true
        return (e', r.consumed, e.nextBuf.take (e.takeSize true dest) ++ written, endAck)) := by
      rw [DeflateEncoder.encodeStep, if_neg open_, flush]
      dsimp only
      rw [if_pos can, helped, Outcome.returns_bind, placed, Outcome.returns_bind]
    have gone : out ++ (e.nextBuf.take (e.takeSize true dest) ++ written) ++ nextBuf =
        out ++ (e.nextBuf ++ r.output) := by
      rw [← moved]
      simp only [List.append_assoc]
    rcases DeflateEncoder.complete_spec r.state nextBuf true with ⟨-, same, concluded⟩ | going
    · -- The marker alone is held back, so the flush has ended.
      have ended : total e.enc [] = r.output := by
        have here : endsWithMarker nextBuf = true := by
          rw [same]
          decide
        rw [here] at sign
        exact of_decide_eq_true sign.symm
      refine ⟨⟨r.state, [], false⟩, r.consumed, _, true, by rw [step, concluded]; rfl, ?_⟩
      constructor
      · rw [none]
        exact Nat.zero_le _
      · exact room
      · exact fun ack => by cases ack
      · intro _
        refine ⟨?_, rfl, finished ended⟩
        rw [← same, gone, ← ended]
        exact state
    · refine ⟨⟨r.state, nextBuf, true⟩, r.consumed, _, false, by rw [step, going]; rfl, ?_⟩
      have left : if endsWithMarker nextBuf
          then midFlush r.state = false ∧
            out ++ (e.nextBuf.take (e.takeSize true dest) ++ written) ++ nextBuf = whole
          else out ++ (e.nextBuf.take (e.takeSize true dest) ++ written) ++
            (nextBuf ++ total r.state []) = whole := by
        split
        · rename_i marked
          rw [marked] at sign
          have ended := of_decide_eq_true sign.symm
          rw [gone, ← ended]
          exact ⟨finished ended, state⟩
        · rename_i unmarked
          rw [Bool.not_eq_true] at unmarked
          rw [unmarked] at sign
          have more : rest ≠ [] := by
            rintro rfl
            rw [List.append_nil] at split
            exact of_decide_eq_false sign.symm split
          rw [later more, ← List.append_assoc, gone, ← state, split]
          simp only [List.append_assoc]
      constructor
      · rw [none]
        exact Nat.zero_le _
      · exact room
      · exact fun _ => ⟨⟨small, fun feed => (by cases feed), fun _ => ⟨List.drop_nil, left⟩⟩, rfl⟩
      · exact fun ack => by cases ack
  · have aside : e.intoDest true dest = false := by
      rw [DeflateEncoder.canEncode, Bool.not_eq_true, Bool.or_eq_false_iff] at can
      exact can.1
    have marker := DeflateEncoder.held_marker aside
    have step : e.encodeStep d [] last dest = (do
        let (e', endAck) ← DeflateEncoder.complete e.enc (e.held true dest) true
        return (e', 0, e.nextBuf.take (e.takeSize true dest), endAck)) := by
      rw [DeflateEncoder.encodeStep, if_neg open_, flush]
      dsimp only
      rw [if_neg can]
    have parts : e.nextBuf.take (e.takeSize true dest) ++ e.held true dest = e.nextBuf := by
      rw [DeflateEncoder.held, List.take_append_drop]
    have room : (e.nextBuf.take (e.takeSize true dest)).length ≤ dest := by
      rw [List.length_take]
      omega
    rcases DeflateEncoder.complete_spec e.enc (e.held true dest) true with ⟨-, same,
      concluded⟩ | going
    · have marked : endsWithMarker e.nextBuf = true := by
        rw [← marker, same]
        decide
      rw [if_pos marked] at state
      refine ⟨⟨e.enc, [], false⟩, 0, _, true, by rw [step, concluded]; rfl, ?_⟩
      constructor
      · exact Nat.zero_le _
      · exact room
      · exact fun ack => by cases ack
      · intro _
        refine ⟨?_, rfl, state.1⟩
        rw [List.append_assoc, ← same, parts]
        exact state.2
    · refine ⟨⟨e.enc, e.held true dest, true⟩, 0, _, false, by rw [step, going]; rfl, ?_⟩
      have small : (e.held true dest).length ≤ encNextBufSize := by
        rw [DeflateEncoder.held, List.length_drop]
        omega
      have left : if endsWithMarker (e.held true dest)
          then midFlush e.enc = false ∧
            out ++ e.nextBuf.take (e.takeSize true dest) ++ e.held true dest = whole
          else out ++ e.nextBuf.take (e.takeSize true dest) ++
            (e.held true dest ++ total e.enc []) = whole := by
        rw [marker]
        split
        · rename_i marked
          rw [if_pos marked] at state
          rw [List.append_assoc, parts]
          exact state
        · rename_i unmarked
          rw [if_neg unmarked] at state
          rw [List.append_assoc, ← List.append_assoc (e.nextBuf.take _), parts]
          exact state
      constructor
      · exact Nat.zero_le _
      · exact room
      · exact fun _ => ⟨⟨small, fun feed => (by cases feed), fun _ => ⟨List.drop_nil, left⟩⟩, rfl⟩
      · exact fun ack => by cases ack

theorem Kept.flushes (kept : Kept midFlush total whole e [] out) (flush : e.flushes [] last = true)
    (safe : spared d total e [] last dest = true) :
    if endsWithMarker e.nextBuf then midFlush e.enc = false ∧ out ++ e.nextBuf = whole
      else out ++ (e.nextBuf ++ total e.enc []) = whole := by
  by_cases flushing : e.flushing = true
  · exact (kept.flushing flushing).2
  · rw [Bool.not_eq_true] at flushing
    rw [spared, flush, Bool.not_true, Bool.false_or, Bool.and_eq_true, flushing,
      Bool.false_or] at safe
    rw [if_neg (by rw [Bool.not_eq_true]; simpa using safe.1)]
    exact (kept.feeding flushing).2

theorem encodeStep_spec (behaves : Behaves d midFlush total)
    (kept : Kept midFlush total whole e message out) (front : src <+: message)
    (all : last = true → src = message) (stays : e.flushing = true → last = true)
    (safe : spared d total e src last dest = true) :
    ∃ e' read written endAck, e.encodeStep d src last dest = .returns (e', read, written, endAck) ∧
      Stepped midFlush total whole message out src dest (e.flushes src last)
        e' read written endAck ∧
      (endAck = true → message = []) := by
  by_cases flush : e.flushes src last = true
  · have empty : message = [] ∧ src = [] := by
      simp only [DeflateEncoder.flushes, Bool.or_eq_true, Bool.and_eq_true,
        List.isEmpty_iff] at flush
      rcases flush with flushing | ⟨none, set⟩
      · have done := (kept.flushing flushing).1
        exact ⟨done, by rw [all (stays flushing), done]⟩
      · exact ⟨by rw [← all set, none], none⟩
    obtain ⟨rfl, rfl⟩ := empty
    obtain ⟨e', read, written, endAck, ran, stepped⟩ :=
      flushing_step behaves kept.fits (kept.flushes flush safe) flush stays safe
    rw [flush]
    exact ⟨e', read, written, endAck, ran, stepped, fun _ => rfl⟩
  · rw [Bool.not_eq_true] at flush
    rw [flush]
    obtain ⟨e', read, written, ran, stepped⟩ := feeding_step behaves kept front flush
    exact ⟨e', read, written, false, ran, stepped, fun ack => by cases ack⟩

structure Sending.Holds (midFlush : σ → Bool) (total : σ → List Byte → List Byte)
    (whole : List Byte) (s : Sending σ) : Prop where
  going : s.ended = false → Kept midFlush total whole s.encoder s.message s.out
  concluded : s.ended = true → s.message = [] ∧ s.out ++ syncMarker = whole ∧
    s.encoder = .new s.encoder.enc ∧ midFlush s.encoder.enc = false

variable {s : Sending σ} {call : Call}

theorem Sending.step_holds (behaves : Behaves d midFlush total)
    (holds : s.Holds midFlush total whole) (possible : s.possible call = true)
    (safe : sparedCall d total s call = true) :
    ∃ s', s.step d call = .returns s' ∧ s'.Holds midFlush total whole := by
  simp only [Sending.possible, Bool.and_eq_true, Bool.or_eq_true, Bool.not_eq_true',
    decide_eq_true_eq] at possible
  obtain ⟨⟨ongoing, enough⟩, stays⟩ := possible
  have kept := holds.going ongoing
  have all : call.last = true → s.message.take call.src = s.message := by
    intro set
    rw [set] at enough
    exact List.take_of_length_le (enough.resolve_left fun unset => by cases unset)
  have remains : s.encoder.flushing = true → call.last = true := by
    intro flushing
    exact stays.resolve_left fun idle => by rw [flushing] at idle; cases idle
  rw [sparedCall, Bool.and_eq_true] at safe
  obtain ⟨first, second⟩ := safe
  obtain ⟨e, read, written, endAck, ran, stepped, done⟩ :=
    encodeStep_spec behaves kept (List.take_prefix _ _) all remains first
  rw [ran] at second
  dsimp only at second
  by_cases again : s.message.take call.src ≠ [] ∧ read = (s.message.take call.src).length ∧
      call.last = true ∧ endAck = false
  · rw [if_pos again] at second
    obtain ⟨nonempty, used, set, unacked⟩ := again
    obtain ⟨kept, flushing⟩ := stepped.going unacked
    have left : s.message.drop read = [] := by
      rw [used, all set, List.drop_length]
    rw [left] at kept
    obtain ⟨e', read', written', endAck', ran', stepped', -⟩ :=
      encodeStep_spec behaves kept List.nil_prefix (fun _ => rfl) (fun _ => set) second
    have nothing : read' = 0 := Nat.le_zero.mp stepped'.reads
    subst nothing
    refine ⟨⟨e', s.message.drop read, s.out ++ (written ++ written'), endAck'⟩, ?_, ?_⟩
    · rw [Sending.step, DeflateEncoder.encode, ran, Outcome.returns_bind]
      dsimp only
      rw [if_pos ⟨nonempty, used, set, unacked⟩, ran', Outcome.returns_bind]
      rfl
    · rw [left]
      constructor
      · intro going
        have kept := (stepped'.going going).1
        rw [List.append_assoc] at kept
        exact kept
      · intro concluded
        obtain ⟨sent, fresh⟩ := stepped'.concluded concluded
        rw [List.append_assoc s.out] at sent
        exact ⟨rfl, sent, fresh⟩
  · refine ⟨⟨e, s.message.drop read, s.out ++ written, endAck⟩, ?_, ?_⟩
    · rw [Sending.step, DeflateEncoder.encode, ran, Outcome.returns_bind]
      dsimp only
      rw [if_neg again]
      rfl
    · constructor
      · exact fun going => (stepped.going going).1
      · exact fun concluded =>
          ⟨by dsimp only; rw [done concluded, List.drop_nil], stepped.concluded concluded⟩

theorem Sending.run_holds (behaves : Behaves d midFlush total) (calls : List Call)
    (holds : s.Holds midFlush total whole) (possible : along d possible s calls = true)
    (safe : along d (sparedCall d total) s calls = true) :
    ∃ s', s.run d calls = .returns s' ∧ s'.Holds midFlush total whole := by
  induction calls generalizing s with
  | nil => exact ⟨s, rfl, holds⟩
  | cons call calls ih =>
    rw [along, Bool.and_eq_true] at possible safe
    obtain ⟨s', ran, holds'⟩ := step_holds behaves holds possible.1 safe.1
    rw [ran] at possible safe
    obtain ⟨last, rest, holds⟩ := ih holds' possible.2 safe.2
    exact ⟨last, by rw [Sending.run, ran, Outcome.returns_bind, rest], holds⟩

theorem Sending.start_holds (enc : σ) (message : List Byte) (calm : midFlush enc = false) :
    (start enc message).Holds midFlush total (total enc message) := by
  constructor
  · intro _
    exact ⟨Nat.zero_le _, fun _ => ⟨calm, rfl⟩, fun flushing => by cases flushing⟩
  · exact fun concluded => by cases concluded

/-- Whatever the splits and the output buffers: what has gone out is a beginning
    of the compressor's whole output, and at the end all of it but the marker. The
    encoder can then take the next message. -/
theorem marker_alone_removed (behaves : Behaves d midFlush total) (enc : σ)
    (calm : midFlush enc = false) (message : List Byte) (calls : List Call)
    (possible : along d Sending.possible (.start enc message) calls = true)
    (safe : along d (sparedCall d total) (.start enc message) calls = true) :
    ∃ s, (Sending.start enc message).run d calls = .returns s ∧ s.out <+: total enc message ∧
      (s.ended = true → s.message = [] ∧ s.out ++ syncMarker = total enc message ∧
        s.encoder = .new s.encoder.enc ∧ midFlush s.encoder.enc = false) := by
  obtain ⟨s, ran, holds⟩ :=
    Sending.run_holds behaves calls (Sending.start_holds enc message calm) possible safe
  refine ⟨s, ran, ?_, holds.concluded⟩
  by_cases ended : s.ended = true
  · exact ⟨_, (holds.concluded ended).2.1⟩
  · rw [Bool.not_eq_true] at ended
    have kept := holds.going ended
    by_cases flushing : s.encoder.flushing = true
    · have left := (kept.flushing flushing).2
      split at left
      · exact ⟨_, left.2⟩
      · exact ⟨_, left⟩
    · rw [Bool.not_eq_true] at flushing
      exact ⟨_, (kept.feeding flushing).2⟩

end Runs

structure Stored where
  buffered : List Byte
  pending : List Byte
  deriving DecidableEq, Repr

namespace Stored

def block (data : List Byte) : List Byte :=
  if data = [] then [0x00] ++ syncMarker
  else
    let length := UInt16.ofNat data.length
    [0x00, length.toUInt8, (length >>> 8).toUInt8, (~~~length).toUInt8,
      (~~~length >>> 8).toUInt8] ++ data ++ [0x00] ++ syncMarker

def midFlush (s : Stored) : Bool := !s.pending.isEmpty

def total (s : Stored) (input : List Byte) : List Byte :=
  if s.pending = [] then block (s.buffered ++ input) else s.pending

def deflate : Deflate Stored := fun s input output sync =>
  if sync then
    let whole := s.total input
    some ⟨⟨[], whole.drop output⟩, input.length, whole.take output⟩
  else if s.pending = [] then some ⟨⟨s.buffered ++ input, []⟩, input.length, []⟩
  else some ⟨⟨s.buffered, s.pending.drop output⟩, 0, s.pending.take output⟩

theorem total_ne_nil (s : Stored) (input : List Byte) : s.total input ≠ [] := by
  unfold total
  split
  · unfold block
    split <;> simp
  · assumption

theorem behaves : Behaves deflate midFlush total := by
  constructor
  · intro s input output calm _
    have none : s.pending = [] := by simpa [midFlush] using calm
    refine ⟨⟨⟨s.buffered ++ input, []⟩, input.length, []⟩, ?_, Nat.le_refl _, Nat.zero_le _, rfl,
      fun more => ?_⟩
    · rw [deflate, if_neg Bool.false_ne_true, if_pos none]
    · simp [total, none]
  · intro s output enough
    have some_out := s.total_ne_nil []
    refine ⟨⟨⟨[], (s.total []).drop output⟩, 0, (s.total []).take output⟩,
      (s.total []).drop output, rfl, rfl, ?_, ?_, ?_, ?_, fun more => ?_⟩
    · intro none
      rw [List.take_eq_nil_iff] at none
      rcases none with short | nothing
      · rw [short] at enough
        exact absurd enough (by decide)
      · exact some_out nothing
    · rw [List.length_take]
      exact Nat.min_le_left _ _
    · rw [List.take_append_drop]
    · cases left : (s.total []).drop output <;> rfl
    · rw [total, if_neg more]

def noise (n : Nat) : List Byte := (List.range n).map fun i => UInt8.ofNat (0x90 + i)

end Stored

theorem marker_alone_removed_stored :
    ∃ s, (Sending.start ⟨[], []⟩ (Stored.noise 40)).run Stored.deflate
        [⟨15, false, 4⟩, ⟨25, true, 9⟩, ⟨0, true, 3⟩, ⟨0, true, 20⟩, ⟨0, true, 2⟩, ⟨0, true, 40⟩] =
        .returns s ∧
      s.out <+: Stored.total ⟨[], []⟩ (Stored.noise 40) ∧
      (s.ended = true → s.message = [] ∧
      s.out ++ syncMarker = Stored.total ⟨[], []⟩ (Stored.noise 40) ∧
        s.encoder = .new s.encoder.enc ∧ Stored.midFlush s.encoder.enc = false) :=
  marker_alone_removed Stored.behaves ⟨[], []⟩ rfl (Stored.noise 40) _ (by decide +kernel)
    (by decide +kernel)

/-- The marker inside the data, where the output buffer ends: the encoder takes it
    for the end, and what the compressor has not yet written is lost. -/
theorem marker_in_data_ends_early :
    let data := (Stored.noise 36).take 4 ++ syncMarker ++ (Stored.noise 36).drop 4
    along Stored.deflate Sending.possible (.start ⟨[], []⟩ data) [⟨40, true, 13⟩] = true ∧
      ∃ s, (Sending.start ⟨[], []⟩ data).run Stored.deflate [⟨40, true, 13⟩] = .returns s ∧
        s.ended = true ∧ s.out.length = 9 ∧ s.out ++ syncMarker ≠ Stored.total ⟨[], []⟩ data := by
  refine ⟨by decide +kernel, ⟨⟨⟨[], (Stored.noise 36).drop 4 ++ [0x00] ++ syncMarker⟩, [], false⟩,
    [], [0x00, 0x28, 0x00, 0xd7, 0xff] ++ Stored.noise 4, true⟩, ?_, rfl, rfl, ?_⟩
  · rfl
  · decide +kernel

end PushpinDeflate
