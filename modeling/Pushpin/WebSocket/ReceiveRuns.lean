import Pushpin.Foundations.Runs
import Pushpin.WebSocket.Fragments
import Pushpin.WebSocket.ReceiveMessage

namespace PushpinWebSocket
open PushpinRingBuffer
variable {ε δ : Type}

inductive ReceiveEvent where
  | arrive (count : Nat)
  | align
  | read (dest : Nat)
  /-- The other direction has sent a close frame to its end. -/
  | closeSent
  deriving DecidableEq, Repr

/-- `coming` is the part of the stream that has not arrived. -/
structure Receiver (ε δ : Type) where
  protocol : Protocol ε δ
  rbuf : RingBuffer
  coming : List Byte
  delivered : List Portion
  failure : Option Error
  deriving DecidableEq

namespace Receiver

def replied (s : Receiver ε δ) (protocol : Protocol ε δ) (rbuf : RingBuffer) : Received →
    Receiver ε δ
  | .wait => { s with protocol, rbuf }
  | .failed e => { s with protocol, rbuf, failure := some e }
  | .got opcode bytes done =>
      { s with protocol, rbuf, delivered := s.delivered ++ [⟨opcode, bytes, done⟩] }

def step (dec : Decoder δ) (s : Receiver ε δ) : ReceiveEvent → Option (Receiver ε δ)
  | .arrive count => do
    let (rbuf, _) ← s.rbuf.write (s.coming.take count)
    return { s with rbuf, coming := s.coming.drop count }
  | .align => do
    let (rbuf, _) ← s.rbuf.align
    return { s with rbuf }
  | .read dest => do
    let (protocol, rbuf, reply) ← s.protocol.recvMessageContent dec s.rbuf dest
    return s.replied protocol rbuf reply
  | .closeSent =>
    some { s with protocol := { s.protocol with
      state := if s.protocol.state = .peerClosed then .finished else .closing } }

/-- The buffer takes what arrives, calls are made until one fails or the peer has
    closed, and each has room for a byte. -/
def possible (s : Receiver ε δ) : ReceiveEvent → Bool
  | .arrive count => decide ((s.coming.take count).length ≤ s.rbuf.remainingCapacity)
  | .align => true
  | .read dest => s.protocol.receives && s.failure.isNone && decide (1 ≤ dest)
  | .closeSent => s.protocol.state.sends

def frameAtHand (s : Receiver ε δ) : Option FrameInfo :=
  match s.protocol.receivingFrame with
  | some fi => some fi
  | none => (readHeader s.rbuf.content).toOption

def start (protocol : Protocol ε δ) (rbuf : RingBuffer) (coming : List Byte) : Receiver ε δ :=
  ⟨protocol, rbuf, coming, [], none⟩

def controlAtHand (s : Receiver ε δ) : Bool := s.frameAtHand.any fun fi => isControl fi.opcode

def roomy (s : Receiver ε δ) (event : ReceiveEvent) : Bool :=
  s.possible event &&
    match event with
    | .read dest => !s.controlAtHand || decide (controlFramePayloadMax ≤ dest)
    | _ => true

end Receiver

def Awaits (p : Protocol ε δ) (content : List Byte) : Prop :=
  match p.receivingFrame with
  | none => readHeader content = .error .unexpectedEof
  | some fi => if isControl fi.opcode then content.length < fi.payloadSize else content = []

namespace Outline

def joined (o : Outline) (f : WireFrame) : WholeMessage :=
  match o.current with
  | none => ⟨f.opcode, f.payload⟩
  | some m => { m with payload := m.payload ++ f.payload }

def gatheredAt (o : Outline) (f : WireFrame) (read : Nat) : Gathered :=
  match o.current with
  | none => ⟨o.messages, if read = 0 then none else some ⟨f.opcode, f.payload.take read⟩⟩
  | some m => ⟨o.messages, some { m with payload := m.payload ++ f.payload.take read }⟩

structure Accepts (o : Outline) (f : WireFrame) : Prop where
  going : o.stop = none
  next : o.frame f = o.put (o.joined f) f.fin
  control : f.control = true → f.fin = true ∧ f.payload.length ≤ controlFramePayloadMax ∧
    o.current = none

end Outline

inductive Receives (frames : List WireFrame) (s : Receiver ε δ) : Prop where
  | between (before after : List WireFrame) (split : frames = before ++ after)
      (valid : s.rbuf.Valid)
      (open_ : s.protocol.receives = true) (fine : s.failure = none)
        (going : (outline before).stop = none)
      (frame : s.protocol.receivingFrame = none)
      (message : s.protocol.receivingMessage.map (fun msg => (msg.opcode, msg.compressionMode)) =
        (outline before).current.map fun m => (m.opcode, .uncompressed))
      (rest : s.rbuf.content ++ s.coming = wireBytes after)
      (told : gathered s.delivered = some ⟨(outline before).messages, (outline before).current⟩)
  | inside (before after : List WireFrame) (f : WireFrame) (read : Nat)
      (split : frames = before ++ f :: after)
      (valid : s.rbuf.Valid) (open_ : s.protocol.receives = true) (fine : s.failure = none)
      (accepts : (outline before).Accepts f) (frame : s.protocol.receivingFrame = some f.info)
      (message : s.protocol.receivingMessage = some ⟨((outline before).joined f).opcode, read,
        .uncompressed⟩)
      (part : read < f.payload.length) (whole : f.control = true → read = 0)
      (rest : s.rbuf.content ++ s.coming = (masked f.mask f.payload 0).drop read ++ wireBytes after)
      (told : gathered s.delivered = some ((outline before).gatheredAt f read))
  | closed (before after : List WireFrame) (split : frames = before ++ after) (valid : s.rbuf.Valid)
      (state : s.protocol.state = .peerClosed ∨ s.protocol.state = .finished)
        (fine : s.failure = none)
      (stop : (outline before).stop = some .closed)
      (told : gathered s.delivered = some ⟨(outline before).messages, none⟩)
  | failed (before after : List WireFrame) (f : WireFrame) (e : Error)
      (split : frames = before ++ f :: after)
      (valid : s.rbuf.Valid) (open_ : s.protocol.receives = true) (failure : s.failure = some e)
      (stop : ((outline before).frame f).stop = some (.rejected e))
      (told : gathered s.delivered = some ⟨(outline before).messages, (outline before).current⟩)

theorem stop_sticks {o : Outline} {reason : Stop} (stopped : o.stop = some reason)
    (frames : List WireFrame) : frames.foldl Outline.frame o = o := by
  induction frames with
  | nil => rfl
  | cons f frames ih =>
    have stays : o.frame f = o := by simp only [Outline.frame, stopped]
    rw [List.foldl_cons, stays, ih]

theorem outline_append (before after : List WireFrame) :
    outline (before ++ after) = after.foldl Outline.frame (outline before) := by
  simp [outline, List.foldl_append]

theorem outline_stopped {before : List WireFrame} {reason : Stop}
    (stopped : (outline before).stop = some reason) (after : List WireFrame) :
    outline (before ++ after) = outline before := by
  rw [outline_append, stop_sticks stopped]

theorem readHeader_eof {s : List Byte} {kind : ErrorKind} (failed : readHeader s = .error kind) :
    kind = .unexpectedEof := by
  unfold readHeader at failed
  split at failed
  · split at failed
    · rename_i length
      unfold readLength at length
      split at length
      · cases length
      · split at length
        · split at length <;> cases length
          cases failed
          rfl
        · split at length <;> cases length
          cases failed
          rfl
    · split at failed
      · split at failed
        · cases failed
        · cases failed
          rfl
      · cases failed
  · cases failed
    rfl

theorem WireFrame.readHeader_bytes {f : WireFrame} (sized : f.Sized) (rest : List Byte) :
    readHeader (f.bytes ++ rest) = .ok f.info := by
  rw [WireFrame.bytes, encodedFrame, List.append_assoc]
  exact readHeader_headerBytes f.fin f.rsv1 sized.1 sized.2 f.mask _

theorem WireFrame.bytes_drop (f : WireFrame) (rest : List Byte) :
    (f.bytes ++ rest).drop f.info.payloadOffset = masked f.mask f.payload 0 ++ rest := by
  rw [WireFrame.bytes, encodedFrame, List.append_assoc]
  exact List.drop_left' (headerBytes_length f.fin f.rsv1 f.opcode f.payload.length f.mask)

theorem acceptFrame_outline {o : Outline} (going : o.stop = none)
    {message : Option ReceivingMessage}
    (same : message.map (fun msg => (msg.opcode, msg.compressionMode)) =
      o.current.map fun m => (m.opcode, .uncompressed))
    (f : WireFrame) (plain : (o.frame f).stop ≠ some .compressed) :
    (∃ e, acceptFrame message f.info = .error e ∧ (o.frame f).stop = some (.rejected e)) ∨
    (acceptFrame message f.info = .ok ⟨(o.joined f).opcode, 0, .uncompressed⟩ ∧ o.Accepts f) := by
  obtain ⟨messages, current, stop⟩ := o
  simp only at going
  subst going
  cases current with
  | none =>
    obtain rfl : message = none := by simpa using same
    simp only [Outline.frame, Outline.begins] at plain ⊢
    simp only [acceptFrame, Outline.joined]
    by_cases continuation : f.opcode = opcodeContinuation
    · left
      have same_info : f.info.opcode = opcodeContinuation := continuation
      exact ⟨.unexpectedOpcode, by rw [if_pos same_info], by rw [if_pos continuation]; rfl⟩
    · have other_info : ¬ f.info.opcode = opcodeContinuation := continuation
      by_cases bad : f.control = true ∧
        (f.payload.length > controlFramePayloadMax ∨ ¬ f.fin = true ∨ f.rsv1 = true)
      · left
        have bad_info : isControl f.info.opcode = true ∧
            (f.info.payloadSize > controlFramePayloadMax ∨ ¬ f.info.fin = true ∨
              f.info.rsv1 = true) := bad
        refine ⟨.invalidControlFrame, by rw [if_neg other_info, if_pos bad_info], ?_⟩
        rw [if_neg continuation, if_pos bad]
        rfl
      · have good_info : ¬ (isControl f.info.opcode = true ∧
            (f.info.payloadSize > controlFramePayloadMax ∨ ¬ f.info.fin = true ∨
              f.info.rsv1 = true)) := bad
        rw [if_neg continuation, if_neg bad] at plain
        have uncompressed : f.rsv1 = false := by
          by_contra compressed
          exact plain (by simp [Bool.not_eq_false _ ▸ compressed])
        have uncompressed_info : f.info.rsv1 = false := uncompressed
        right
        refine ⟨?_, rfl, ?_, ?_⟩
        · rw [if_neg other_info, if_neg good_info, uncompressed_info]
          rfl
        · simp only [Outline.frame, Outline.begins]
          rw [if_neg continuation, if_neg bad, uncompressed]
          rfl
        · intro control
          simp only [control, true_and, not_or, Nat.not_lt, gt_iff_lt, not_not] at bad
          exact ⟨bad.2.1, bad.1, rfl⟩
  | some m =>
    obtain ⟨msg, rfl, kinds⟩ : ∃ msg, message = some msg ∧ (msg.opcode, msg.compressionMode) =
        (m.opcode, CompressionMode.uncompressed) := by simpa using same
    obtain ⟨kind, mode⟩ := Prod.mk.inj kinds
    simp only [Outline.frame, Outline.continues] at plain ⊢
    simp only [acceptFrame, Outline.joined]
    by_cases continuation : f.opcode = opcodeContinuation
    · have same_info : ¬ f.info.opcode ≠ opcodeContinuation := not_not.mpr continuation
      cases compressed : f.rsv1 with
      | true =>
        left
        have compressed_info : f.info.rsv1 = true := compressed
        exact ⟨.compressionError, by rw [if_neg same_info, if_pos compressed_info],
          by simp [continuation, Outline.rejects]⟩
      | false =>
        right
        have plain_info : ¬ f.info.rsv1 = true := by
          rw [Bool.not_eq_true]
          exact compressed
        refine ⟨?_, rfl, ?_, ?_⟩
        · obtain ⟨opcode, read, compressionMode⟩ := msg
          simp only at kind mode
          subst kind mode
          rw [if_neg same_info, if_neg plain_info]
        · simp [Outline.frame, Outline.continues, continuation, compressed, Outline.joined]
        · intro control
          rw [WireFrame.control, continuation] at control
          exact absurd control (by decide)
    · left
      have other_info : f.info.opcode ≠ opcodeContinuation := continuation
      exact ⟨.unexpectedOpcode, by rw [if_pos other_info], by simp [continuation, Outline.rejects]⟩

theorem masked_take (mask : Option Mask) (buf : List Byte) (offset n : Nat)
    (inside : n ≤ buf.length) :
    (masked mask buf offset).take n = masked mask (buf.take n) offset := by
  have front : (masked mask (buf.take n) offset).length = n := by
    rw [masked_length, List.length_take_of_le inside]
  conv_lhs => rw [← List.take_append_drop n buf, masked_append, List.take_left' front]

variable {read : Nat}

theorem payload_bytes {f : WireFrame} {n : Nat} {content coming after : List Byte}
    (rest : content ++ coming = (masked f.mask f.payload 0).drop read ++ after)
    (most : read + n ≤ f.payload.length) (there : n ≤ content.length) :
    masked f.mask (content.take n) read = (f.payload.drop read).take n ∧
      content.drop n ++ coming = (masked f.mask f.payload 0).drop (read + n) ++ after := by
  have left : n ≤ ((masked f.mask f.payload 0).drop read).length := by
    rw [List.length_drop, masked_length]
    omega
  constructor
  · have same : content.take n = masked f.mask ((f.payload.drop read).take n) read := by
      calc content.take n = (content ++ coming).take n := (List.take_append_of_le_length there).symm
        _ = ((masked f.mask f.payload 0).drop read).take n := by
          rw [rest, List.take_append_of_le_length left]
        _ = (masked f.mask (f.payload.drop read) read).take n := by
          rw [masked_drop _ _ _ _ (by omega), Nat.zero_add]
        _ = masked f.mask ((f.payload.drop read).take n) read :=
          masked_take _ _ _ _ (by rw [List.length_drop]; omega)
    rw [same, masked_masked]
  · rw [← List.drop_append_of_le_length there, rest, List.drop_append_of_le_length left,
      List.drop_drop]

def Protocol.took (p : Protocol ε δ) (f : WireFrame) (msg : ReceivingMessage) (n : Nat) :
    Protocol ε δ × Received :=
  { p with
    receivingMessage := some { msg with framePayloadRead := msg.framePayloadRead + n }
    }.endFrame f.info
    msg.opcode ((f.payload.drop msg.framePayloadRead).take n)
      (decide (msg.framePayloadRead + n = f.payload.length))

theorem recvPlain_spec (p : Protocol ε δ) {r : RingBuffer} (valid : r.Valid) {f : WireFrame}
    {msg : ReceivingMessage} {coming after : List Byte}
    (rest : r.content ++ coming = (masked f.mask f.payload 0).drop msg.framePayloadRead ++ after)
    (inside : msg.framePayloadRead ≤ f.payload.length) (dest : Nat) :
    (p.recvPlain r dest f.info msg = some (p, r, .wait) ∧
      (f.control = true ∧ r.firstLen < f.payload.length ∨
        f.control = false ∧ msg.framePayloadRead < f.payload.length ∧ r.firstLen = 0)) ∨
    (∃ n r', n = min (min (f.payload.length - msg.framePayloadRead) r.firstLen) dest ∧
      (f.control = true → f.payload.length ≤ r.firstLen) ∧
      (msg.framePayloadRead < f.payload.length → 0 < r.firstLen) ∧
      p.recvPlain r dest f.info msg = some ((p.took f msg n).1, r', (p.took f msg n).2) ∧
      r'.Valid ∧ r'.content = r.content.drop n ∧
      r'.content ++ coming = (masked f.mask f.payload 0).drop (msg.framePayloadRead + n) ++ after ∧
      (r.isReadableContiguous = true → r'.isReadableContiguous = true)) := by
  obtain ⟨first, bound, _⟩ := RingBuffer.readBuf_eq valid
  have width := RingBuffer.content_length valid
  have first_size : (r.content.take r.firstLen).length = r.firstLen := by
    rw [List.length_take, width]
    omega
  have nothing : r.content.take r.firstLen = [] ↔ r.firstLen = 0 := by
    rw [← List.length_eq_zero_iff, first_size]
  unfold Protocol.recvPlain
  simp only [first, Option.bind_eq_bind, Option.bind_some, first_size]
  by_cases cut : f.control = true ∧ r.firstLen < f.payload.length
  · left
    rw [if_pos (show isControl f.info.opcode = true ∧ r.firstLen < f.info.payloadSize from cut)]
    exact ⟨rfl, .inl cut⟩
  · rw [if_neg (show ¬ (isControl f.info.opcode = true ∧ r.firstLen < f.info.payloadSize) from cut)]
    by_cases empty : msg.framePayloadRead < f.payload.length ∧ r.firstLen = 0
    · left
      have waits : f.info.payloadSize - msg.framePayloadRead > 0 ∧ r.content.take r.firstLen = [] :=
        ⟨Nat.sub_pos_of_lt empty.1, nothing.mpr empty.2⟩
      rw [if_pos waits]
      refine ⟨rfl, .inr ⟨?_, empty⟩⟩
      refine Bool.eq_false_iff.mpr fun control => cut ⟨control, ?_⟩
      omega
    · right
      have goes : ¬ (f.info.payloadSize - msg.framePayloadRead > 0 ∧
          r.content.take r.firstLen = []) := by
        rintro ⟨left, none_there⟩
        exact empty ⟨Nat.lt_of_sub_pos left, nothing.mp none_there⟩
      rw [if_neg goes]
      have same_size : f.info.payloadSize = f.payload.length := rfl
      rw [same_size]
      generalize count : min (min (f.payload.length - msg.framePayloadRead) r.firstLen) dest = n
      have within : n ≤ r.len := by omega
      have most : msg.framePayloadRead + n ≤ f.payload.length := by omega
      obtain ⟨r', committed, valid', queue, _, flat⟩ := RingBuffer.readCommit_spec valid n within
      have content' : r'.content = r.content.drop n := congrArg Queue.bytes queue
      obtain ⟨bytes, rest'⟩ := payload_bytes rest most (by omega)
      refine ⟨n, r', rfl, ?_, ?_, ?_, valid', content', by rw [content']; exact rest', flat⟩
      · intro control
        by_contra short
        exact cut ⟨control, by omega⟩
      · intro left
        by_contra none_there
        exact empty ⟨left, by omega⟩
      · have taken : (r.content.take r.firstLen).take n = r.content.take n := by
          rw [List.take_take, Nat.min_eq_left (by omega)]
        have unmasked : masked f.info.mask (r.content.take n) msg.framePayloadRead =
            (f.payload.drop msg.framePayloadRead).take n := bytes
        simp only [committed, Option.bind_some, taken, unmasked, if_pos most]
        rfl

theorem take_drop_join (xs : List Byte) (m n : Nat) :
    xs.take m ++ (xs.drop m).take n = xs.take (m + n) :=
  (List.take_add).symm

theorem gatheredAt_last (o : Outline) (f : WireFrame) {n : Nat} (all : read + n = f.payload.length)
    (done : Bool) :
    (o.gatheredAt f read).add ⟨(o.joined f).opcode, (f.payload.drop read).take n, done⟩ =
      some ⟨(o.put (o.joined f) done).messages, (o.put (o.joined f) done).current⟩ := by
  have rest : (f.payload.drop read).take n = f.payload.drop read := by
    rw [List.take_of_length_le]
    rw [List.length_drop]
    omega
  rw [rest]
  cases current : o.current with
  | none =>
    by_cases begun : read = 0
    · subst begun
      cases done <;>
        simp [Outline.gatheredAt, Outline.joined, current, Gathered.add, Gathered.put, Outline.put]
    · cases done <;>
        simp [Outline.gatheredAt, Outline.joined, current, begun, Gathered.add, Gathered.put,
          Outline.put]
  | some m =>
    cases done <;>
      simp [Outline.gatheredAt, Outline.joined, current, Gathered.add, Gathered.put, Outline.put]

theorem gatheredAt_more (o : Outline) (f : WireFrame) {n : Nat} (some_more : 0 < n) :
    (o.gatheredAt f read).add ⟨(o.joined f).opcode, (f.payload.drop read).take n, false⟩ =
      some (o.gatheredAt f (read + n)) := by
  cases current : o.current with
  | none =>
    by_cases begun : read = 0
    · subst begun
      have later' : ¬ n = 0 := by omega
      simp [Outline.gatheredAt, Outline.joined, current, Gathered.add, Gathered.put, later']
    · simp [Outline.gatheredAt, Outline.joined, current, begun, Gathered.add, Gathered.put,
        take_drop_join]
  | some m =>
    simp [Outline.gatheredAt, Outline.joined, current, Gathered.add, Gathered.put,
      List.append_assoc, take_drop_join]

variable {frames : List WireFrame} {s : Receiver ε δ}

theorem opened_receives {before after : List WireFrame} {f : WireFrame} (split : frames = before ++
    f :: after) {p : Protocol ε δ} {r : RingBuffer} (valid : r.Valid) (open_ : p.receives = true)
    (fine : s.failure = none) (accepts : (outline before).Accepts f)
    (frame : p.receivingFrame = some f.info)
    (message : p.receivingMessage = some ⟨((outline before).joined f).opcode, read, .uncompressed⟩)
    (part : read < f.payload.length ∨ read = 0) (whole : f.control = true → read = 0)
    (rest : r.content ++ s.coming = (masked f.mask f.payload 0).drop read ++ wireBytes after)
    (told : gathered s.delivered = some ((outline before).gatheredAt f read))
    {dest : Nat} (room : 1 ≤ dest) (fits : f.control = true → f.payload.length ≤ dest) :
    ∃ p' r' reply,
      p.recvPlain r dest f.info ⟨((outline before).joined f).opcode, read, .uncompressed⟩ =
        some (p', r', reply) ∧
      Receives frames (s.replied p' r' reply) ∧
      (r.isReadableContiguous = true → r'.isReadableContiguous = true) ∧
      (reply = .wait → p' = p ∧ (r'.isReadableContiguous = true → Awaits p' r'.content)) ∧
      r'.content.length ≤ r.content.length ∧
      (reply ≠ .wait → read < f.payload.length → r'.content.length < r.content.length) := by
  have inside : read ≤ f.payload.length := by omega
  obtain ⟨_, bound, flat_first⟩ := RingBuffer.readBuf_eq valid
  have width := RingBuffer.content_length valid
  rcases @recvPlain_spec _ _ p r valid f ⟨((outline before).joined f).opcode, read, .uncompressed⟩ _
    _ rest inside dest with
    ⟨waits, why⟩ | ⟨n, r', count, there, some_there, took, valid', content', rest', flat⟩
  · refine ⟨p, r, .wait, waits, ?_, id, ?_, Nat.le_refl _, fun absurd => (absurd rfl).elim⟩
    · have going_on : read < f.payload.length := by
        rcases why with ⟨control, short⟩ | ⟨_, left, _⟩
        · have none_read := whole control
          omega
        · exact left
      exact .inside before after f read split valid open_ fine accepts frame message going_on whole
        rest told
    · intro _
      refine ⟨rfl, fun flat => ?_⟩
      have all := flat_first flat
      simp only [Awaits, frame]
      rcases why with ⟨control, short⟩ | ⟨data, _, none_there⟩
      · rw [if_pos (show isControl f.info.opcode = true from control), width, ← all]
        exact short
      · rw [if_neg (by rw [show isControl f.info.opcode = false from data]; decide)]
        refine List.eq_nil_of_length_eq_zero ?_
        omega
  · simp only at count there some_there took rest'
    have shorter : r'.content.length = r.content.length - n := by rw [content', List.length_drop]
    refine ⟨_, r', _, took, ?_, flat, ?_, by omega, ?_⟩
    · by_cases last : read + n = f.payload.length
      · have joined := gatheredAt_last (outline before) f last f.fin
        have complete := gathered_snoc told ⟨((outline before).joined f).opcode,
          (f.payload.drop read).take n, f.fin⟩
        rw [joined] at complete
        have next := accepts.next
        rw [← outline_snoc] at next
        have split' : frames = (before ++ [f]) ++ after := by rw [split]; simp
        have rest'' : r'.content ++ s.coming = wireBytes after := by
          rw [rest', last, List.drop_of_length_le (by rw [masked_length]), List.nil_append]
        cases final : f.fin with
        | false =>
          rw [final] at complete next
          have after_state :
              (p.took f ⟨((outline before).joined f).opcode, read, .uncompressed⟩ n) = ({ p with
                receivingFrame := none
                receivingMessage :=
                  some ⟨((outline before).joined f).opcode, read + n, .uncompressed⟩ },
                .got ((outline before).joined f).opcode ((f.payload.drop read).take n) false) := by
            simp [Protocol.took, Protocol.endFrame, last, WireFrame.info, final]
          rw [after_state]
          refine .between (before ++ [f]) after split' valid' open_ fine ?_ rfl ?_ rest'' ?_
          · rw [next]
            rfl
          · rw [next]
            rfl
          · rw [next]
            exact complete
        | true =>
          rw [final] at complete next
          by_cases closes : ((outline before).joined f).opcode = opcodeClose
          · have after_state :
                (p.took f ⟨((outline before).joined f).opcode, read, .uncompressed⟩ n) = ({ p with
                  receivingFrame := none
                  receivingMessage := none
                  state := if p.state = .closing then .finished else .peerClosed },
                  .got ((outline before).joined f).opcode ((f.payload.drop read).take n) true) := by
              simp [Protocol.took, Protocol.endFrame, last, WireFrame.info, final, closes]
            rw [after_state]
            refine .closed (before ++ [f]) after split' valid' ?_ fine ?_ ?_
            · simp only [Receiver.replied]
              split
              · exact .inr rfl
              · exact .inl rfl
            · rw [next]
              simp [Outline.put, closes]
            · rw [next]
              exact complete
          · have after_state :
              (p.took f ⟨((outline before).joined f).opcode, read, .uncompressed⟩ n) =
                ({ p with receivingFrame := none, receivingMessage := none },
                  .got ((outline before).joined f).opcode ((f.payload.drop read).take n) true) := by
              simp [Protocol.took, Protocol.endFrame, last, WireFrame.info, final, closes]
            rw [after_state]
            refine .between (before ++ [f]) after split' valid' open_ fine ?_ rfl ?_ rest'' ?_
            · rw [next]
              simp [Outline.put, closes]
            · rw [next]
              rfl
            · rw [next]
              exact complete
      · have data : f.control = false := by
          refine Bool.eq_false_iff.mpr fun control => last ?_
          have none_read := whole control
          have all := there control
          have enough := fits control
          omega
        have left : read < f.payload.length := by omega
        have some_taken : 0 < n := by
          have at_least := some_there left
          omega
        have after_state : (p.took f ⟨((outline before).joined f).opcode, read, .uncompressed⟩ n) =
            ({ p with
              receivingMessage := some ⟨((outline before).joined f).opcode, read + n,
                .uncompressed⟩ },
              .got ((outline before).joined f).opcode ((f.payload.drop read).take n) false) := by
          simp [Protocol.took, Protocol.endFrame, last]
        rw [after_state]
        have complete := gathered_snoc told ⟨((outline before).joined f).opcode,
          (f.payload.drop read).take n, false⟩
        rw [gatheredAt_more _ _ some_taken] at complete
        exact .inside before after f (read + n) split valid' open_ fine accepts frame rfl (by omega)
          (fun control => by rw [data] at control; cases control) rest' complete
    · intro waits
      simp [Protocol.took, Protocol.endFrame] at waits
    · intro _ left
      have at_least := some_there left
      omega

structure Called (frames : List WireFrame) (s : Receiver ε δ) (p : Protocol ε δ) (r : RingBuffer)
    (reply : Received) : Prop where
  receives : Receives frames (s.replied p r reply)
  flat : s.rbuf.isReadableContiguous = true → r.isReadableContiguous = true
  awaits : reply = .wait → r.isReadableContiguous = true → Awaits p r.content
  hand : reply = .wait → (s.replied p r reply).frameAtHand = s.frameAtHand
  stays : reply = .wait → p.state = s.protocol.state
  shrinks : r.content.length ≤ s.rbuf.content.length
  progress : reply ≠ .wait → r.content.length < s.rbuf.content.length

theorem header_at_hand {after : List WireFrame} (sized : ∀ f ∈ after, f.Sized) {r : RingBuffer}
    (valid : r.Valid) {coming : List Byte} (rest : r.content ++ coming = wireBytes after) :
    readHeader (r.content.take r.firstLen) = .error .unexpectedEof ∨
    ∃ f later r', after = f :: later ∧ readHeader (r.content.take r.firstLen) = .ok f.info ∧
      r.readCommit f.info.payloadOffset = some r' ∧ r'.Valid ∧
      readHeader r.content = .ok f.info ∧
      r'.content ++ coming = (masked f.mask f.payload 0).drop 0 ++ wireBytes later ∧
      (r.isReadableContiguous = true → r'.isReadableContiguous = true) ∧
      r'.content.length < r.content.length := by
  cases header : readHeader (r.content.take r.firstLen) with
  | error kind =>
    rw [readHeader_eof header]
    exact .inl rfl
  | ok fi =>
    right
    have bound := (RingBuffer.readBuf_eq valid).2.1
    have width := RingBuffer.content_length valid
    obtain ⟨whole, within⟩ := readHeader_append header (r.content.drop r.firstLen ++ coming)
    obtain ⟨at_hand, _⟩ := readHeader_append header (r.content.drop r.firstLen)
    rw [← List.append_assoc, List.take_append_drop, rest] at whole
    rw [List.take_append_drop] at at_hand
    cases after with
    | nil => cases whole
    | cons f later =>
      have bytes : wireBytes (f :: later) = f.bytes ++ wireBytes later := rfl
      rw [bytes, f.readHeader_bytes (sized f (by simp))] at whole
      obtain rfl : f.info = fi := Except.ok.inj whole
      have least : 2 ≤ f.info.payloadOffset := (headerSize_le f.payload.length f.mask.isSome).1
      rw [List.length_take] at within
      obtain ⟨r', committed, valid', queue, _, flat⟩ :=
        RingBuffer.readCommit_spec valid f.info.payloadOffset (by omega)
      have content' : r'.content = r.content.drop f.info.payloadOffset := congrArg Queue.bytes queue
      refine ⟨f, later, r', rfl, rfl, committed, valid', at_hand, ?_, flat, ?_⟩
      · rw [content', List.drop_zero, ← f.bytes_drop, ← bytes, ← rest,
          List.drop_append_of_le_length (by omega)]
      · rw [content', List.length_drop]
        omega

theorem recv_receives (dec : Decoder δ) (sized : ∀ f ∈ frames, f.Sized)
    (plain : (outline frames).stop ≠ some .compressed) (receives : Receives frames s)
    (open_ : s.protocol.receives = true) (fine : s.failure = none) {dest : Nat} (room : 1 ≤ dest)
    (fits : ∀ fi, s.frameAtHand = some fi → isControl fi.opcode = true →
      fi.payloadSize ≤ controlFramePayloadMax → fi.payloadSize ≤ dest) :
    ∃ p r reply, s.protocol.recvMessageContent dec s.rbuf dest = some (p, r, reply) ∧
      Called frames s p r reply := by
  cases receives with
  | between before after split valid _ _ going frame message rest told =>
    have first := (RingBuffer.readBuf_eq valid).1
    have flat_first := (RingBuffer.readBuf_eq valid).2.2
    have width := RingBuffer.content_length valid
    rcases header_at_hand (fun f mem => sized f (by rw [split]; exact List.mem_append_right _ mem))
      valid rest with
      none_yet | ⟨f, later, r₁, rfl, header, committed, valid₁, at_hand, rest₁, flat₁, shorter₁⟩
    · refine ⟨s.protocol, s.rbuf, .wait, ?_, ?_, id, ?_, fun _ => rfl, fun _ => rfl,
        Nat.le_refl _, fun absurd => (absurd rfl).elim⟩
      · simp only [Protocol.recvMessageContent, open_, Protocol.openFrame, frame, first,
          Option.bind_eq_bind, Option.bind_some, none_yet, if_true]
        rfl
      · exact .between before after split valid open_ fine going frame message rest told
      · intro _ flat
        have all : s.rbuf.content.take s.rbuf.firstLen = s.rbuf.content := by
          rw [List.take_of_length_le]
          rw [flat_first flat, width]
        simp only [Awaits, frame]
        rw [← all]
        exact none_yet
    · have plain_here : ((outline before).frame f).stop ≠ some .compressed := by
        intro compressed
        rw [← outline_snoc] at compressed
        refine plain ?_
        rw [split, show before ++ f :: later =
          (before ++ [f]) ++ later by simp, outline_stopped compressed]
        exact compressed
      rcases acceptFrame_outline going message f plain_here with ⟨e, rejected, stop⟩ | ⟨accepted,
        accepts⟩
      · refine ⟨{ s.protocol with receivingFrame := some f.info }, r₁, .failed e, ?_, ?_, flat₁,
          ?_, ?_, ?_, Nat.le_of_lt shorter₁, fun _ => shorter₁⟩
        · simp only [Protocol.recvMessageContent, open_, Protocol.openFrame, frame, first,
            Option.bind_eq_bind, Option.bind_some, header, committed, rejected, if_true]
          rfl
        · exact .failed before later f e split valid₁ open_ rfl stop told
        · intro absurd
          cases absurd
        · intro absurd
          cases absurd
        · intro absurd
          cases absurd
      · have begun : gathered s.delivered = some ((outline before).gatheredAt f 0) := by
          rw [told]
          unfold Outline.gatheredAt
          cases (outline before).current <;> simp
        obtain ⟨p, r, reply, called, receives, flat, awaits, shrinks, progress⟩ :=
          opened_receives (p := { s.protocol with
            receivingFrame := some f.info
            receivingMessage := some ⟨((outline before).joined f).opcode, 0, .uncompressed⟩ })
            split valid₁ open_ fine accepts rfl rfl (.inr rfl) (fun _ => rfl) rest₁ begun room (by
              intro control
              refine fits f.info ?_ control (accepts.control control).2.1
              simp only [Receiver.frameAtHand, frame, at_hand]
              rfl)
        have hand : reply = .wait → (s.replied p r reply).frameAtHand = s.frameAtHand := by
          intro waits
          subst waits
          simp only [Receiver.frameAtHand, Receiver.replied, (awaits rfl).1, frame, at_hand]
          rfl
        refine ⟨p, r, reply, ?_, receives, fun flat' => flat (flat₁ flat'), fun waits =>
          (awaits waits).2, hand,
          fun waits => by rw [(awaits waits).1], by omega, fun _ => by omega⟩
        rw [← called]
        simp only [Protocol.recvMessageContent, open_, Protocol.openFrame, frame, first,
          Option.bind_eq_bind, Option.bind_some, header, committed, accepted, if_true]
        rfl
  | inside before after f read split valid _ _ accepts frame message part whole rest told =>
    obtain ⟨p, r, reply, called, receives, flat, awaits, shrinks, progress⟩ :=
      opened_receives split valid open_ fine accepts frame message
        (.inl part) whole rest told room (by
        intro control
        refine fits f.info ?_ control (accepts.control control).2.1
        simp only [Receiver.frameAtHand, frame])
    have hand : reply = .wait → (s.replied p r reply).frameAtHand = s.frameAtHand := by
      intro waits
      subst waits
      simp only [Receiver.frameAtHand, Receiver.replied, (awaits rfl).1, frame]
    refine ⟨p, r, reply, ?_, receives, flat, fun waits => (awaits waits).2, hand,
      fun waits => by rw [(awaits waits).1], shrinks, fun got => progress got part⟩
    rw [← called]
    simp only [Protocol.recvMessageContent, open_, Protocol.openFrame, frame, message,
      Option.bind_eq_bind, Option.bind_some, if_true]
    rfl
  | closed before after split valid state _ stop told =>
    rcases state with closed | closed <;> simp [Protocol.receives, closed] at open_
  | failed before after f e split valid _ failure stop told =>
    rw [fine] at failure
    cases failure

theorem Receives.refill (receives : Receives frames s) {rbuf : RingBuffer}
    {coming : List Byte} (valid : rbuf.Valid)
    (same : rbuf.content ++ coming = s.rbuf.content ++ s.coming) :
    Receives frames { s with rbuf, coming } := by
  cases receives with
  | between before after split _ open_ fine going frame message rest told =>
    exact .between before after split valid open_ fine going frame message (same.trans rest) told
  | inside before after f read split _ open_ fine accepts frame message part whole rest told =>
    exact .inside before after f read split valid open_ fine accepts frame message part whole
      (same.trans rest) told
  | closed before after split _ state fine stop told =>
      exact .closed before after split valid state fine stop told
  | failed before after f e split _ open_ failure stop told =>
    exact .failed before after f e split valid open_ failure stop told

theorem Receives.valid (receives : Receives frames s) : s.rbuf.Valid := by
  cases receives with
  | between _ _ _ valid _ _ _ _ _ _ _ => exact valid
  | inside _ _ _ _ _ valid _ _ _ _ _ _ _ _ _ => exact valid
  | closed _ _ _ valid _ _ _ _ => exact valid
  | failed _ _ _ _ _ valid _ _ _ _ => exact valid

theorem Receives.closeSent (receives : Receives frames s)
    (sends : s.protocol.state.sends = true) :
    Receives frames { s with protocol := { s.protocol with
      state := if s.protocol.state = .peerClosed then .finished else .closing } } := by
  have still : s.protocol.receives = true → ({ s.protocol with
      state := if s.protocol.state = .peerClosed then .finished else .closing } :
        Protocol ε δ).receives = true := by
    intro open_
    cases state : s.protocol.state with
    | connected => simp [Protocol.receives]
    | peerClosed => simp [Protocol.receives, state] at open_
    | closing => simp [State.sends, state] at sends
    | finished => simp [State.sends, state] at sends
  cases receives with
  | between before after split valid open_ fine going frame message rest told =>
    exact .between before after split valid (still open_) fine going frame message rest told
  | inside before after f read split valid open_ fine accepts frame message part whole rest told =>
    exact .inside before after f read split valid (still open_) fine accepts frame message part
      whole rest told
  | closed before after split valid state fine stop told =>
    refine .closed before after split valid ?_ fine stop told
    rcases state with closed | finished
    · exact .inr (if_pos closed)
    · simp [State.sends, finished] at sends
  | failed before after f e split valid open_ failure stop told =>
    exact .failed before after f e split valid (still open_) failure stop told

/-- What one event keeps. A call at a control frame has room for all of it. -/
theorem step_receives (dec : Decoder δ) (sized : ∀ f ∈ frames, f.Sized)
    (plain : (outline frames).stop ≠ some .compressed) (receives : Receives frames s)
    {event : ReceiveEvent} (can : s.possible event = true)
    (fits : ∀ dest, event = .read dest → ∀ fi, s.frameAtHand = some fi →
    isControl fi.opcode = true →
      fi.payloadSize ≤ controlFramePayloadMax → fi.payloadSize ≤ dest) :
    ∃ s', s.step dec event = some s' ∧ Receives frames s' := by
  cases event with
  | arrive count =>
    obtain ⟨r, written, valid, queue, _⟩ :=
      RingBuffer.write_spec receives.valid (s.coming.take count)
    have room := of_decide_eq_true can
    rw [RingBuffer.remainingCapacity_eq_free receives.valid] at room
    have content : r.content = s.rbuf.content ++ s.coming.take count := by
      have bytes : r.content = s.rbuf.content ++ (s.coming.take count).take s.rbuf.queue.free :=
        congrArg Queue.bytes queue
      rw [bytes, List.take_of_length_le room]
    refine ⟨_, by simp only [Receiver.step, written, Option.bind_eq_bind, Option.bind_some]; rfl,
      ?_⟩
    exact receives.refill valid (by rw [content, List.append_assoc, List.take_append_drop])
  | align =>
    obtain ⟨r, n, ran, aligned⟩ := RingBuffer.align_spec receives.valid
    refine ⟨_, by simp only [Receiver.step, ran, Option.bind_eq_bind, Option.bind_some]; rfl, ?_⟩
    exact receives.refill aligned.valid (by rw [aligned.same])
  | read dest =>
    simp only [Receiver.possible, Bool.and_eq_true, Option.isNone_iff_eq_none,
      decide_eq_true_eq] at can
    obtain ⟨⟨open_, fine⟩, room⟩ := can
    obtain ⟨p, r, reply, called, after⟩ :=
      recv_receives dec sized plain receives open_ fine room (fits dest rfl)
    exact ⟨_, by simp only [Receiver.step, called, Option.bind_eq_bind, Option.bind_some]; rfl,
      after.receives⟩
  | closeSent => exact ⟨_, rfl, receives.closeSent can⟩

end PushpinWebSocket
