import Pushpin.WebSocket.ReceiveMessage

namespace PushpinWebSocket
open PushpinRingBuffer

structure WireFrame extends Frame where
  mask : Option Mask
  deriving DecidableEq, Repr

namespace WireFrame

def bytes (f : WireFrame) : List Byte := encodedFrame f.mask f.toFrame

def info (f : WireFrame) : FrameInfo :=
  ⟨f.fin, f.rsv1, f.opcode, f.mask, headerSize f.payload.length f.mask.isSome, f.payload.length⟩

def Sized (f : WireFrame) : Prop := f.opcode < 16 ∧ f.payload.length < 2 ^ 64

def control (f : WireFrame) : Bool := isControl f.opcode

end WireFrame

def wireBytes (frames : List WireFrame) : List Byte := (frames.map WireFrame.bytes).flatten

structure WholeMessage where
  opcode : Byte
  payload : List Byte
  deriving DecidableEq, Repr

inductive Stop where
  | rejected (e : Error)
  | closed
  | compressed
  deriving DecidableEq, Repr

structure Outline where
  messages : List WholeMessage
  current : Option WholeMessage
  stop : Option Stop
  deriving DecidableEq, Repr

namespace Outline

def rejects (o : Outline) (e : Error) : Outline := { o with stop := some (.rejected e) }

def put (o : Outline) (m : WholeMessage) (fin : Bool) : Outline :=
  if fin then ⟨o.messages ++ [m], none, if m.opcode = opcodeClose then some .closed else none⟩
  else ⟨o.messages, some m, none⟩

def begins (o : Outline) (f : WireFrame) : Outline :=
  if f.opcode = opcodeContinuation then o.rejects .unexpectedOpcode
  else if f.control ∧ (f.payload.length > controlFramePayloadMax ∨ ¬ f.fin ∨ f.rsv1) then
    o.rejects .invalidControlFrame
  else if f.rsv1 then { o with stop := some .compressed }
  else o.put ⟨f.opcode, f.payload⟩ f.fin

def continues (o : Outline) (m : WholeMessage) (f : WireFrame) : Outline :=
  if f.opcode ≠ opcodeContinuation then o.rejects .unexpectedOpcode
  else if f.rsv1 then o.rejects .compressionError
  else o.put { m with payload := m.payload ++ f.payload } f.fin

def frame (o : Outline) (f : WireFrame) : Outline :=
  match o.stop, o.current with
  | some _, _ => o
  | none, none => o.begins f
  | none, some m => o.continues m f

end Outline

def outline (frames : List WireFrame) : Outline := frames.foldl Outline.frame ⟨[], none, none⟩

theorem outline_snoc (frames : List WireFrame) (f : WireFrame) :
    outline (frames ++ [f]) = (outline frames).frame f := by
  simp [outline, List.foldl_append]

structure SplitMessage where
  opcode : Byte
  first : List Byte × Option Mask
  more : List (List Byte × Option Mask)

namespace SplitMessage

def continued : List (List Byte × Option Mask) → List WireFrame
  | [] => []
  | (payload, mask) :: more => ⟨⟨more.isEmpty, false, opcodeContinuation, payload⟩, mask⟩ ::
    continued more

def frames (m : SplitMessage) : List WireFrame :=
  ⟨⟨m.more.isEmpty, false, m.opcode, m.first.1⟩, m.first.2⟩ :: continued m.more

def whole (m : SplitMessage) : WholeMessage :=
  ⟨m.opcode, m.first.1 ++ (m.more.map Prod.fst).flatten⟩

structure Proper (m : SplitMessage) : Prop where
  begins : m.opcode ≠ opcodeContinuation
  control : isControl m.opcode = true → m.more = [] ∧ m.first.1.length ≤ controlFramePayloadMax

end SplitMessage

structure Portion where
  opcode : Byte
  bytes : List Byte
  done : Bool
  deriving DecidableEq, Repr

structure Gathered where
  messages : List WholeMessage
  current : Option WholeMessage
  deriving DecidableEq, Repr

namespace Gathered

def put (g : Gathered) (m : WholeMessage) (done : Bool) : Gathered :=
  if done then ⟨g.messages ++ [m], none⟩ else ⟨g.messages, some m⟩

def add (g : Gathered) (d : Portion) : Option Gathered :=
  match g.current with
  | none => some (g.put ⟨d.opcode, d.bytes⟩ d.done)
  | some m => if m.opcode = d.opcode then
      some (g.put { m with payload := m.payload ++ d.bytes } d.done) else none

end Gathered

def gathered (portions : List Portion) : Option Gathered := portions.foldlM Gathered.add ⟨[], none⟩

theorem gathered_snoc {portions : List Portion} {g : Gathered} (so_far : gathered portions = some g)
    (d : Portion) : gathered (portions ++ [d]) = g.add d := by
  have folded : portions.foldlM Gathered.add ⟨[], none⟩ = some g := so_far
  simp [gathered, List.foldlM_append, folded]

theorem continued_outline (m : WholeMessage) (data : isControl m.opcode = false)
    (messages : List WholeMessage) (more : List (List Byte × Option Mask)) (some_left : more ≠ []) :
    (SplitMessage.continued more).foldl Outline.frame ⟨messages, some m, none⟩ =
      ⟨messages ++ [{ m with payload := m.payload ++ (more.map Prod.fst).flatten }], none,
        none⟩ := by
  have open_ : m.opcode ≠ opcodeClose := by
    intro closes
    rw [closes] at data
    exact absurd data (by decide)
  induction more generalizing m with
  | nil => exact absurd rfl some_left
  | cons fragment more ih =>
    obtain ⟨payload, mask⟩ := fragment
    cases more with
    | nil => simp [SplitMessage.continued, Outline.frame, Outline.continues, Outline.put, open_]
    | cons next more =>
      have rest := ih { m with payload := m.payload ++ payload } data (by simp) open_
      simp only [SplitMessage.continued, List.foldl_cons] at rest ⊢
      simp only [Outline.frame, Outline.continues, Outline.put, ne_eq, not_true_eq_false,
        List.isEmpty_cons, Bool.false_eq_true, if_false] at rest ⊢
      rw [rest]
      simp

theorem message_outline {m : SplitMessage} (proper : m.Proper) (messages : List WholeMessage) :
    m.frames.foldl Outline.frame ⟨messages, none, none⟩ =
      ⟨messages ++ [m.whole], none, if m.opcode = opcodeClose then some .closed else none⟩ := by
  obtain ⟨opcode, ⟨payload, mask⟩, more⟩ := m
  obtain ⟨begins, control⟩ := proper
  simp only at begins control
  by_cases controls : isControl opcode = true
  · obtain ⟨alone, short⟩ := control controls
    subst alone
    have small : ¬ controlFramePayloadMax < payload.length := Nat.not_lt.mpr short
    simp [SplitMessage.frames, SplitMessage.whole, SplitMessage.continued, Outline.frame,
      Outline.begins, Outline.put, WireFrame.control, begins, small]
  · have data : isControl opcode = false := Bool.eq_false_iff.mpr controls
    have open_ : opcode ≠ opcodeClose := by
      intro closes
      rw [closes] at data
      exact absurd data (by decide)
    cases more with
    | nil =>
      simp [SplitMessage.frames, SplitMessage.whole, SplitMessage.continued, Outline.frame,
        Outline.begins, Outline.put, WireFrame.control, begins, data, open_]
    | cons next more =>
      have rest := continued_outline ⟨opcode, payload⟩ data messages (next :: more) (by simp)
      simp only [SplitMessage.frames, List.foldl_cons]
      simp only [Outline.frame, Outline.begins, Outline.put, WireFrame.control, begins, data,
        List.isEmpty_cons, Bool.false_eq_true, false_and, if_false]
      rw [rest, if_neg open_]
      rfl

theorem outline_of_messages (messages : List SplitMessage) (proper : ∀ m ∈ messages, m.Proper)
    (open_ : ∀ m ∈ messages.dropLast, m.opcode ≠ opcodeClose) :
    (outline (messages.flatMap SplitMessage.frames)).messages = messages.map SplitMessage.whole ∧
      (outline (messages.flatMap SplitMessage.frames)).current = none := by
  suffices from_any : ∀ front : List WholeMessage,
      let o := (messages.flatMap SplitMessage.frames).foldl Outline.frame ⟨front, none, none⟩
      o.messages = front ++ messages.map SplitMessage.whole ∧ o.current = none from by
    have done := from_any []
    simpa [outline] using done
  induction messages with
  | nil => intro front; simp
  | cons m messages ih =>
    intro front
    have begun := message_outline (proper m (by simp)) front
    simp only [List.flatMap_cons, List.foldl_append, begun]
    cases messages with
    | nil => simp
    | cons next messages =>
      rw [if_neg (open_ m (by simp))]
      have rest := ih (fun m mem => proper m (List.mem_cons_of_mem _ mem))
        (fun m mem =>
          open_ m (by simp only [List.dropLast_cons_cons]; exact List.mem_cons_of_mem _ mem))
            (front ++ [m.whole])
      simpa using rest

end PushpinWebSocket
