import Pushpin.WebSocket.DeflateEncoder
import Pushpin.WebSocket.MaskedSending
import Pushpin.WebSocket.ReceiveMessage

namespace PushpinWebSocket
open PushpinRingBuffer PushpinVectored
open PushpinDeflate (Deflate Deflated DeflateEncoder deflateHelper)
open Option (bind_eq_some_iff)
variable {σ ε δ : Type}

/-- `DeflateEncoder::encode_to_ringbuffer`. After an error the session ends, so
    its kind and the encoder then do not matter. -/
def encodeToRingbuffer (d : Deflate σ) (e : DeflateEncoder σ) (src : List Byte) (last : Bool)
    (dest : RingBuffer) :
    Option (DeflateEncoder σ × RingBuffer × Except ErrorKind (Nat × Bool)) := do
  let wbuf ← dest.writeBuf
  match e.encode d src last wbuf.length with
  | .panics => none
  | .fails () => return (e, dest, .error .invalidInput)
  | .returns (e, read, written, endAck) => do
    let dest ← dest.fillWriteBuf written
    let dest ← dest.writeCommit written.length
    if endAck = false ∧ written.length = wbuf.length ∧ 0 < dest.remainingCapacity then do
      let wbuf ← dest.writeBuf
      match e.encode d (src.drop read) last wbuf.length with
      | .panics => none
      | .fails () => return (e, dest, .error .invalidInput)
      | .returns (e, r, written, endAck) => do
        let dest ← dest.fillWriteBuf written
        let dest ← dest.writeCommit written.length
        return (e, dest, .ok (read + r, endAck))
    else return (e, dest, .ok (read, endAck))

def deflateEncoder (d : Deflate σ) (reset : σ → σ) : Encoder (DeflateEncoder σ) where
  encodeToRingbuffer := encodeToRingbuffer d
  reset := fun e => { e with enc := reset e.enc }

section Encoding
variable {d : Deflate σ}

theorem deflateHelper_reads {compressor : σ} {input : List Byte} {output : Nat} {sync : Bool}
    {r : Deflated σ} (ran : deflateHelper d compressor input output sync = .returns r) :
    r.consumed ≤ input.length := by
  unfold deflateHelper at ran
  split at ran
  · cases ran
  · split at ran
    · cases ran
    · split at ran
      · cases ran
      · split at ran <;> cases ran
        omega

section
variable {e e' : DeflateEncoder σ} {src written : List Byte} {last endAck : Bool} {dest read : Nat}

theorem encodeStep_ack (ran : e.encodeStep d src last dest = .returns (e', read, written, endAck)) :
    read ≤ src.length ∧ (endAck = true → last = true ∧ src = []) := by
  have ends : e.flushes src last = true → ¬ (e.flushing = true ∧ (src ≠ [] ∨ last = false)) →
      last = true ∧ src = [] := by
    intro flush open_
    by_cases flushing : e.flushing = true
    · have both := not_or.mp (not_and.mp open_ flushing)
      exact ⟨by simpa using both.2, not_not.mp both.1⟩
    · simp only [DeflateEncoder.flushes, Bool.or_eq_true, Bool.and_eq_true,
        List.isEmpty_iff] at flush
      exact (flush.resolve_left flushing).symm
  have ack : ∀ {enc : σ} {nextBuf : List Byte} {flushing : Bool} {after : DeflateEncoder σ × Bool},
      DeflateEncoder.complete enc nextBuf flushing = .returns after → after.2 = true →
        flushing = true := by
    intro enc nextBuf flushing after completed acked
    rcases DeflateEncoder.complete_spec enc nextBuf flushing with ⟨flush, -, -⟩ | going
    · exact flush
    · rw [going] at completed
      cases completed
      cases acked
  unfold DeflateEncoder.encodeStep at ran
  split at ran
  · cases ran
  · rename_i open_
    dsimp only at ran
    split at ran
    · obtain ⟨status, helped, ran⟩ := Outcome.bind_returns ran
      obtain ⟨⟨placed, nextBuf⟩, -, ran⟩ := Outcome.bind_returns ran
      obtain ⟨⟨after, acked⟩, completed, ran⟩ := Outcome.bind_returns ran
      cases ran
      exact ⟨deflateHelper_reads helped, fun set => ends (ack completed set) open_⟩
    · obtain ⟨⟨after, acked⟩, completed, ran⟩ := Outcome.bind_returns ran
      cases ran
      exact ⟨Nat.zero_le _, fun set => ends (ack completed set) open_⟩

theorem encode_ack (ran : e.encode d src last dest = .returns (e', read, written, endAck)) :
    read ≤ src.length ∧ (endAck = true → last = true) := by
  obtain ⟨⟨first, r, w, ack⟩, stepped, ran⟩ := Outcome.bind_returns ran
  obtain ⟨reads, acks⟩ := encodeStep_ack stepped
  dsimp only at ran
  split at ran
  · obtain ⟨⟨second, r', w', ack'⟩, stepped', ran⟩ := Outcome.bind_returns ran
    dsimp only at ran
    split at ran <;> cases ran
    exact ⟨reads, fun set => ((encodeStep_ack stepped').2 set).1⟩
  · cases ran
    exact ⟨reads, fun set => (acks set).1⟩

end

theorem encodeToRingbuffer_ack {e e' : DeflateEncoder σ} {src : List Byte} {last outputEnd : Bool}
    {dest dest' : RingBuffer} {read : Nat}
    (ran : encodeToRingbuffer d e src last dest = some (e', dest', .ok (read, outputEnd))) :
    read ≤ src.length ∧ (outputEnd = true → last = true) := by
  unfold encodeToRingbuffer at ran
  obtain ⟨wbuf, -, ran⟩ := bind_eq_some_iff.mp ran
  split at ran
  · cases ran
  · cases ran
  · rename_i encoded
    obtain ⟨reads, acks⟩ := encode_ack encoded
    obtain ⟨filled, -, ran⟩ := bind_eq_some_iff.mp ran
    obtain ⟨committed, -, ran⟩ := bind_eq_some_iff.mp ran
    split at ran
    · obtain ⟨wbuf', -, ran⟩ := bind_eq_some_iff.mp ran
      split at ran
      · cases ran
      · cases ran
      · rename_i encoded'
        obtain ⟨reads', acks'⟩ := encode_ack encoded'
        obtain ⟨filled', -, ran⟩ := bind_eq_some_iff.mp ran
        obtain ⟨committed', -, ran⟩ := bind_eq_some_iff.mp ran
        cases ran
        rw [List.length_drop] at reads'
        exact ⟨by omega, acks'⟩
    · cases ran
      exact ⟨reads, acks⟩

end Encoding

def Encoder.Honest (c : Encoder ε) : Prop :=
  ∀ {e e' : ε} {src : List Byte} {last outputEnd : Bool} {dest dest' : RingBuffer} {read : Nat},
    c.encodeToRingbuffer e src last dest = some (e', dest', .ok (read, outputEnd)) →
      read ≤ src.length ∧ (outputEnd = true → last = true)

theorem deflateEncoder_honest (d : Deflate σ) (reset : σ → σ) : (deflateEncoder d reset).Honest :=
  encodeToRingbuffer_ack

section Content
variable {c : Encoder ε}

variable {ended : Bool} {src : List (List Byte)}

theorem encodeSrc_ack (honest : c.Honest) {enc enc' : ε}
    {ring ring' : RingBuffer} {start read : Nat} {before outputEnd : Bool}
    (ran : encodeSrc c ended src enc ring start before = some (enc', ring', .ok (read, outputEnd)))
    (fine : before = true → ended = true) :
    start ≤ read ∧ read ≤ start + src.flatten.length ∧ (outputEnd = true → ended = true) := by
  induction src generalizing enc ring start before with
  | nil =>
    cases ran
    exact ⟨Nat.le_refl _, Nat.le_add_right _ _, fine⟩
  | cons buf bufs ih =>
    obtain ⟨⟨enc₁, ring₁, result⟩, called, ran⟩ := bind_eq_some_iff.mp ran
    dsimp only at ran
    split at ran
    · cases ran
    · rename_i r ack
      obtain ⟨reads, acks⟩ := honest called
      have ends : ack = true → ended = true := fun set => (Bool.and_eq_true _ _ ▸ acks set).1
      rw [List.flatten_cons, List.length_append]
      split at ran
      · cases ran
        exact ⟨by omega, by omega, ends⟩
      · obtain ⟨low, high, acks⟩ := ih ran ends
        exact ⟨by omega, by omega, acks⟩

variable {msg : SendingMessage}

theorem encodeMessage_ack (honest : c.Honest) {state state' : DeflateState ε δ} {outputEnd : Bool}
    {read : Nat}
    (ran : Protocol.encodeMessage c state msg src ended = some (state', .ok (read, outputEnd)))
    (fine : msg.encOutputEnd = true → ended = true) :
    read ≤ src.flatten.length ∧ (outputEnd = true → ended = true) := by
  unfold Protocol.encodeMessage at ran
  split at ran
  · rename_i finished
    cases ran
    exact ⟨Nat.zero_le _, fun _ => fine finished⟩
  · split at ran
    · obtain ⟨⟨enc, ring, result⟩, called, ran⟩ := bind_eq_some_iff.mp ran
      cases ran
      obtain ⟨-, reads, acks⟩ := encodeSrc_ack honest called fun set => by cases set
      exact ⟨by omega, acks⟩
    · obtain ⟨⟨enc, ring, result⟩, called, ran⟩ := bind_eq_some_iff.mp ran
      cases result with
      | error kind => cases ran
      | ok both =>
        cases ran
        exact ⟨Nat.zero_le _, (honest called).2⟩

def countedContent : Except Error (Nat × Bool) → Nat
  | .ok (read, _) => read
  | .error _ => 0

structure ContentCall (msg : SendingMessage) (src : List (List Byte)) (ended : Bool)
    (p' : Protocol ε δ) (src' : List (List Byte)) (result : Except Error (Nat × Bool)) : Prop where
  sizes : src'.map List.length = src.map List.length
  kept : src'.flatten.drop (countedContent result) = src.flatten.drop (countedContent result)
  reads : countedContent result ≤ src.flatten.length
  same : ∀ msg', p'.sendingMessage = some msg' →
    msg'.opcode = msg.opcode ∧ (msg'.encOutputEnd = true → msg'.endLen.isSome = true)
  failed : ∀ e, result = .error e → p'.sendingMessage.isSome = true
  finished : ∀ n done, result = .ok (n, done) → done = p'.sendingMessage.isNone ∧
    (done = true → ended = true ∧ n = src.flatten.length)

theorem noteEnd_keeps {msg' : SendingMessage} {srcLen : Nat}
    (noted : msg.noteEnd srcLen ended = some msg') :
    msg'.opcode = msg.opcode ∧ msg'.encOutputEnd = msg.encOutputEnd ∧
      (msg.endLen.isSome = true → ended = true) ∧ msg'.endLen.isSome = ended := by
  unfold SendingMessage.noteEnd at noted
  cases endLen : msg.endLen with
  | some len =>
    rw [endLen] at noted
    dsimp only at noted
    split at noted
    · rename_i both
      cases noted
      exact ⟨rfl, rfl, fun _ => both.1, by rw [endLen, both.1]; rfl⟩
    · cases noted
  | none =>
    rw [endLen] at noted
    cases noted
    cases ended with
    | true => exact ⟨rfl, rfl, fun set => (by cases set), rfl⟩
    | false =>
      refine ⟨rfl, rfl, fun set => (by cases set), ?_⟩
      rw [if_neg Bool.false_ne_true, endLen]
      rfl

theorem lowerEnd_keeps {msg' : SendingMessage} {read : Nat}
    (lowered : msg.lowerEnd read = some msg') :
    msg'.opcode = msg.opcode ∧ msg'.encOutputEnd = msg.encOutputEnd ∧
      msg'.endLen.isSome = msg.endLen.isSome := by
  unfold SendingMessage.lowerEnd at lowered
  cases endLen : msg.endLen with
  | some len =>
    rw [endLen] at lowered
    dsimp only at lowered
    split at lowered <;> cases lowered
    exact ⟨rfl, rfl, rfl⟩
  | none =>
    rw [endLen] at lowered
    cases lowered
    exact ⟨rfl, rfl, by rw [endLen]⟩

theorem endMessage_spec (c : Encoder ε) (p : Protocol ε δ) (sentAll : Bool)
    (sending : p.sendingMessage = some msg) :
    ((p.endMessage c sentAll).sendingMessage = none ∧ sentAll = true) ∨
      (p.endMessage c sentAll).sendingMessage = some msg := by
  unfold Protocol.endMessage
  split
  · rename_i both
    exact Or.inl ⟨rfl, both.1⟩
  · exact Or.inr sending

variable {p p' : Protocol ε δ} {w w' : Writer}

theorem sendPlain_spec {opcode : Byte}
    {src' : List (List Byte)} {result : Except Error (Nat × Bool)}
    (sending : p.sendingMessage = some msg) (noted : msg.encOutputEnd = true →
    msg.endLen.isSome = true)
    (ran : p.sendPlain c w msg opcode src ended = some (p', w', src', result)) :
    ContentCall msg src ended p' src' result := by
  obtain ⟨⟨q, v, bufs, ret⟩, sent, ran⟩ := bind_eq_some_iff.mp ran
  obtain ⟨⟨sizes, kept⟩, reads, alone⟩ := sendFrame_effect sent
  dsimp only at ran
  cases ret with
  | error e =>
    cases ran
    constructor
    · exact sizes
    · exact kept
    · exact Nat.zero_le _
    · intro msg' eq
      rw [alone, sending] at eq
      cases eq
      exact ⟨rfl, noted⟩
    · intro _ _
      rw [alone, sending]
      rfl
    · intro n done eq
      cases eq
  | ok read =>
    obtain ⟨lowered, lower, ran⟩ := bind_eq_some_iff.mp ran
    obtain ⟨opcode_eq, ack, marked⟩ := lowerEnd_keeps lower
    cases ran
    have after :=
      endMessage_spec c { q with sendingMessage := some { lowered with frameSent := true } }
        (ended && decide (read = src.flatten.length)) rfl
    constructor
    · exact sizes
    · exact kept
    · exact reads
    · intro msg' eq
      rcases after with ⟨none, -⟩ | some_left
      · rw [none] at eq
        cases eq
      · rw [some_left] at eq
        cases eq
        refine ⟨opcode_eq, fun set => ?_⟩
        rw [show lowered.endLen.isSome = true ↔ _ by rw [marked]]
        exact noted (ack ▸ set)
    · intro e eq
      cases eq
    · intro n done eq
      cases eq
      refine ⟨rfl, fun finished => ?_⟩
      rcases after with ⟨-, all⟩ | some_left
      · simpa using all
      · rw [some_left] at finished
        cases finished

theorem sendEncoded_spec {state : DeflateState ε δ}
    {opcode : Byte} {result : Except Error Bool} (sending : p.sendingMessage = some msg)
    (ran : p.sendEncoded w state msg opcode = some (p', w', result)) :
    (∃ frameSent, p'.sendingMessage = some { msg with frameSent }) ∧
      (result = .ok true → msg.encOutputEnd = true) := by
  obtain ⟨bufs, -, ran⟩ := bind_eq_some_iff.mp ran
  obtain ⟨⟨q, v, bufs', ret⟩, sent, ran⟩ := bind_eq_some_iff.mp ran
  dsimp only at ran
  cases ret with
  | error e =>
    cases ran
    have alone := (sendFrame_effect sent).2.2
    exact ⟨⟨msg.frameSent, alone.trans sending⟩, fun eq => by cases eq⟩
  | ok size =>
    obtain ⟨encBuf, -, ran⟩ := bind_eq_some_iff.mp ran
    cases ran
    refine ⟨⟨true, rfl⟩, fun eq => ?_⟩
    simp only [Except.ok.injEq, Bool.and_eq_true] at eq
    exact eq.1

theorem sendCompressed_spec (honest : c.Honest) {state : DeflateState ε δ} {opcode : Byte}
    {src' : List (List Byte)} {result : Except Error (Nat × Bool)}
    (sending : p.sendingMessage = some msg)
    (noted : msg.endLen.isSome = ended) (acked : msg.encOutputEnd = true → ended = true)
    (ran : p.sendCompressed c w state msg opcode src ended = some (p', w', src', result)) :
    ContentCall msg src ended p' src' result := by
  obtain ⟨⟨state₁, encoded⟩, encode, ran⟩ := bind_eq_some_iff.mp ran
  dsimp only at ran
  cases encoded with
  | error kind =>
    cases ran
    constructor
    · rfl
    · rfl
    · exact Nat.zero_le _
    · intro msg' eq
      rw [sending] at eq
      cases eq
      exact ⟨rfl, fun set => noted.trans (acked set)⟩
    · intro _ _
      rw [sending]
      rfl
    · intro n done eq
      cases eq
  | ok both =>
    obtain ⟨read, outputEnd⟩ := both
    obtain ⟨reads, acks⟩ := encodeMessage_ack honest encode acked
    dsimp only at ran
    split at ran
    · cases ran
    · rename_i all
      obtain ⟨lowered, lower, ran⟩ := bind_eq_some_iff.mp ran
      obtain ⟨opcode_eq, ack, marked⟩ := lowerEnd_keeps lower
      have kept : ∀ frameSent msg', some { lowered with frameSent } = some msg' →
          msg'.opcode = msg.opcode ∧ (msg'.encOutputEnd = true → msg'.endLen.isSome = true) := by
        intro frameSent msg' eq
        cases eq
        exact ⟨opcode_eq, fun set => marked.trans (noted.trans (acks (ack.symm.trans set)))⟩
      split at ran
      · rename_i writes
        obtain ⟨⟨q, v, ret⟩, sent, ran⟩ := bind_eq_some_iff.mp ran
        obtain ⟨⟨frameSent, left⟩, ends⟩ := sendEncoded_spec rfl sent
        dsimp only at ran
        cases ret with
        | error e =>
          cases ran
          constructor
          · rfl
          · rfl
          · exact Nat.zero_le _
          · intro msg' eq
            exact kept frameSent msg' (left ▸ eq)
          · intro _ _
            rw [left]
            rfl
          · intro n done eq
            cases eq
        | ok sentAll =>
          cases ran
          have after := endMessage_spec c q sentAll left
          constructor
          · rfl
          · rfl
          · exact reads
          · intro msg' eq
            rcases after with ⟨none, -⟩ | some_left
            · rw [none] at eq
              cases eq
            · exact kept frameSent msg' (some_left ▸ eq)
          · intro e eq
            cases eq
          · intro n done eq
            cases eq
            refine ⟨rfl, fun finished => ?_⟩
            rcases after with ⟨-, all_sent⟩ | some_left
            · have output := ack.symm.trans (ends (by rw [all_sent]))
              exact ⟨acks output, by by_contra differs; exact all ⟨output, differs⟩⟩
            · rw [some_left] at finished
              cases finished
      · cases ran
        constructor
        · rfl
        · rfl
        · exact reads
        · intro msg' eq
          exact kept lowered.frameSent msg' eq
        · intro e eq
          cases eq
        · intro n done eq
          cases eq
          exact ⟨rfl, fun finished => by cases finished⟩

theorem sendMessageContent_spec (honest : c.Honest)
    {src' : List (List Byte)} {result : Except Error (Nat × Bool)}
    (sending : p.sendingMessage = some msg) (noted : msg.encOutputEnd = true →
    msg.endLen.isSome = true)
    (ran : p.sendMessageContent c w src ended = some (p', w', src', result)) :
    ContentCall msg src ended p' src' result := by
  unfold Protocol.sendMessageContent at ran
  split at ran
  · cases ran
  · rw [sending] at ran
    obtain ⟨held, same, ran⟩ := bind_eq_some_iff.mp ran
    cases same
    obtain ⟨msg₁, note, ran⟩ := bind_eq_some_iff.mp ran
    obtain ⟨opcode_eq, ack, stays, marked⟩ := noteEnd_keeps note
    have acked : msg₁.encOutputEnd = true → ended = true := fun set => stays (noted (ack ▸ set))
    have call : ContentCall msg₁ src ended p' src' result := by
      dsimp only at ran
      split at ran
      · cases ran
        constructor
        · rfl
        · rfl
        · exact Nat.zero_le _
        · intro msg' eq
          cases eq
          exact ⟨rfl, fun set => marked.trans (acked set)⟩
        · exact fun _ _ => rfl
        · intro n done eq
          cases eq
      · split at ran
        · exact sendCompressed_spec honest rfl marked acked ran
        · exact sendPlain_spec rfl (fun set => marked.trans (acked set)) ran
    exact ⟨call.sizes, call.kept, call.reads, fun msg' eq => opcode_eq ▸ call.same msg' eq,
      call.failed, call.finished⟩

end Content

section Receiving
variable {dec : Decoder δ}

theorem endFrame_sending (p : Protocol ε δ) (fi : FrameInfo) (opcode : Byte) (bytes : List Byte)
    (frameReadEnd : Bool) :
    (p.endFrame fi opcode bytes frameReadEnd).1.sendingMessage = p.sendingMessage := by
  simp only [Protocol.endFrame]
  repeat' split
  all_goals rfl

variable {p p' : Protocol ε δ} {rbuf rbuf' : RingBuffer}

theorem openFrame_sending {reply : Option Received}
    (ran : p.openFrame rbuf = some (p', rbuf', reply)) : p'.sendingMessage = p.sendingMessage := by
  unfold Protocol.openFrame at ran
  split at ran
  · cases ran
    rfl
  · obtain ⟨buf, -, ran⟩ := bind_eq_some_iff.mp ran
    split at ran
    · cases ran
      rfl
    · cases ran
      rfl
    · obtain ⟨committed, -, ran⟩ := bind_eq_some_iff.mp ran
      dsimp only at ran
      split at ran <;> cases ran <;> rfl

variable {dest : Nat} {reply : Received}

theorem recvCompressed_sending {fi : FrameInfo}
    {msg : ReceivingMessage}
    (ran : p.recvCompressed dec rbuf dest fi msg = some (p', rbuf', reply)) :
    p'.sendingMessage = p.sendingMessage := by
  unfold Protocol.recvCompressed at ran
  split at ran
  · cases ran
    rfl
  · obtain ⟨⟨ring, st, result⟩, -, ran⟩ := bind_eq_some_iff.mp ran
    dsimp only at ran
    split at ran
    · cases ran
      rfl
    · split at ran
      · cases ran
        rfl
      · cases ran
        exact endFrame_sending _ _ _ _ _

theorem recvPlain_sending {fi : FrameInfo}
    {msg : ReceivingMessage}
    (ran : p.recvPlain rbuf dest fi msg = some (p', rbuf', reply)) :
    p'.sendingMessage = p.sendingMessage := by
  obtain ⟨buf, -, ran⟩ := bind_eq_some_iff.mp ran
  dsimp only at ran
  split at ran
  · cases ran
    rfl
  · split at ran
    · cases ran
      rfl
    · obtain ⟨committed, -, ran⟩ := bind_eq_some_iff.mp ran
      split at ran
      · cases ran
        exact endFrame_sending _ _ _ _ _
      · cases ran

theorem recvMessageContent_sending
    (ran : p.recvMessageContent dec rbuf dest = some (p', rbuf', reply)) :
    p'.sendingMessage = p.sendingMessage := by
  unfold Protocol.recvMessageContent at ran
  split at ran
  · obtain ⟨⟨q, ring, opened⟩, open_, ran⟩ := bind_eq_some_iff.mp ran
    have same := openFrame_sending open_
    dsimp only at ran
    split at ran
    · cases ran
      exact same
    · obtain ⟨fi, -, ran⟩ := bind_eq_some_iff.mp ran
      obtain ⟨msg, -, ran⟩ := bind_eq_some_iff.mp ran
      split at ran
      · exact (recvCompressed_sending ran).trans same
      · exact (recvPlain_sending ran).trans same
  · cases ran

theorem tryRecvMessageContent_sending
    (ran : p.tryRecvMessageContent dec rbuf dest = some (p', rbuf', reply)) :
    p'.sendingMessage = p.sendingMessage := by
  unfold Protocol.tryRecvMessageContent at ran
  generalize 2 = rounds at ran
  induction rounds generalizing p rbuf with
  | zero => cases ran
  | succ rounds ih =>
    obtain ⟨⟨q, ring, first⟩, received, ran⟩ := bind_eq_some_iff.mp ran
    have same := recvMessageContent_sending received
    dsimp only at ran
    split at ran
    · split at ran
      · cases ran
        exact same
      · obtain ⟨⟨aligned, count⟩, -, ran⟩ := bind_eq_some_iff.mp ran
        exact (ih ran).trans same
    · cases ran
      exact same

end Receiving
end PushpinWebSocket
