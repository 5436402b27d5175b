import Pushpin.WebSocket.SendMessage

namespace PushpinWebSocket
open PushpinRingBuffer PushpinVectored PushpinCaller Runs

section
variable {ε δ : Type}

structure MessageGoing (opcode : Byte) (mask : Option Mask) (s : Caller (Protocol ε δ))
    (msg : SendingMessage) (frames : List Frame) (flight consumed : List Byte) : Prop where
  unfinished : s.done = false
  holds : s.protocol.sendingMessage = some msg
  kind : msg.opcode = opcode
  masking : msg.mask = mask
  noted : msg.endLen = none ∨ (s.ended = true ∧ msg.endLen = some s.pending.length)
  started : frames ≠ [] → msg.frameSent = true
  fresh : s.protocol.sendingFrame = none → frames = [] → msg.frameSent = false
  opening : Opening opcode frames
  content : s.content = (frames.map Frame.payload).flatten ++ (consumed ++ s.pending)
  wire : s.wire = encodedFrames mask frames ++ flight
  onWire : OnWire opcode mask frames s.pending s.ended s.protocol.sendingFrame flight consumed
  plain : s.protocol.deflateState = none ∨ msg.isControl = true
  fits : s.pending.length < 2 ^ 64

inductive MessageGood (opcode : Byte) (mask : Option Mask) (s : Caller (Protocol ε δ)) : Prop where
  | going (msg : SendingMessage) (frames : List Frame) (flight consumed : List Byte)
      (going : MessageGoing opcode mask s msg frames flight consumed)
  | finished (finished : s.done = true) (ceased : s.ended = true)
      (message : IsMessage opcode s.content s.wire)

variable {frame : SendingFrame} {consumed pending : List Byte}

theorem flightPayload_append (data : List Byte)
    (held : frame.payloadSize ≤ consumed.length + pending.length) :
    flightPayload frame consumed (pending ++ data) = flightPayload frame consumed pending := by
  unfold flightPayload
  rw [List.take_append_of_le_length (by omega)]

variable {opcode : Byte} {mask : Option Mask} {frames : List Frame} {flight : List Byte}
  {ended : Bool}

section
variable {frame : Option SendingFrame}
  (onWire : OnWire opcode mask frames pending ended frame flight consumed)
include onWire

theorem OnWire.append (going : ended = false)
    (data : List Byte) :
    OnWire opcode mask frames (pending ++ data) ended frame flight consumed := by
  cases onWire with
  | idle => exact .idle
  | flying inFlight =>
    rw [← flightPayload_append data inFlight.held]
    refine .flying ⟨inFlight.header, inFlight.opcode, inFlight.before, ?_, inFlight.unsent,
      inFlight.fits, ?_⟩
    · have held := inFlight.held
      rw [List.length_append]
      omega
    · intro final
      have ceased := (inFlight.last final).1
      rw [going] at ceased
      cases ceased

theorem OnWire.finish : OnWire opcode mask frames pending true frame flight consumed := by
  cases onWire with
  | idle => exact .idle
  | flying inFlight =>
    exact .flying ⟨inFlight.header, inFlight.opcode, inFlight.before, inFlight.held,
      inFlight.unsent, inFlight.fits, fun final => ⟨rfl, (inFlight.last final).2⟩⟩

end

variable {fin : Bool}

theorem lacksFin_header (small : opcode < 16)
    {payloadSize : Nat}
    (header : frame.header = headerBytes fin false opcode payloadSize mask) :
    frame.lacksFin = !fin := by
  have bits := (flagsByte_bits fin false small).1
  have first : ∃ rest, frame.header = flagsByte fin false opcode :: rest := by
    rw [header]
    cases mask <;> exact ⟨_, rfl⟩
  obtain ⟨rest, eq⟩ := first
  simp only [SendingFrame.lacksFin, eq]
  generalize flagsByte fin false opcode &&& 0x80 = bit at bits ⊢
  rw [← bits]
  simp

theorem currentFrame_new (opcode : Byte) (srcLen : Nat) (fin rsv1 : Bool) (mask : Option Mask) :
    currentFrame none opcode srcLen fin rsv1 mask =
      .ok ⟨opcode, headerBytes fin rsv1 opcode srcLen mask, srcLen, 0⟩ := by
  have bounds := headerSize_le srcLen mask.isSome
  have length := headerBytes_length fin rsv1 opcode srcLen mask
  have room : ¬ (List.replicate headerSizeMax (0 : Byte)).length <
      headerSize srcLen mask.isSome := by
    rw [List.length_replicate]
    omega
  simp only [currentFrame, writeHeader, if_neg room, List.take_left' length]

variable {s : Caller (Protocol ε δ)} {msg : SendingMessage}

/-- The frame that a call works on, in flight or new. It is final if it takes
    all of the pending bytes. -/
theorem frame_at_work (small : opcode < 16)
    (going : MessageGoing opcode mask s msg frames flight consumed) {bufs : List (List Byte)}
    (cut : bufs.flatten = s.pending)
    (marks : endsUnmarked s.protocol.sendingFrame bufs s.ended = false) :
    ∃ frame fin, currentFrame s.protocol.sendingFrame
        (if msg.frameSent then opcodeContinuation else msg.opcode)
        (capBufs bufs sendFrameBufsMax).1.flatten.length
        (s.ended && !(capBufs bufs sendFrameBufsMax).2) false mask = .ok frame ∧
      InFlight opcode mask frames s.pending s.ended frame consumed fin ∧
      flight = (wholeFrame frame mask (flightPayload frame consumed s.pending)).take frame.sent ∧
      (s.ended = true → frame.payloadSize = consumed.length + s.pending.length → fin = true) := by
  have onWire := going.onWire
  cases holds : s.protocol.sendingFrame with
  | some frame =>
    rw [holds] at onWire marks
    cases onWire with
    | @flying _ _ fin inFlight =>
      refine ⟨frame, fin, rfl, inFlight, rfl, ?_⟩
      intro ceased all
      have before := inFlight.before
      have lacks := lacksFin_header (nextOpcode_small small frames) inFlight.header
      have left : frame.payloadLeft = bufs.flatten.length := by
        unfold SendingFrame.payloadLeft
        rw [cut]
        omega
      simp only [endsUnmarked, ceased, left, decide_true, Bool.and_true, Bool.true_and, lacks,
        Bool.not_eq_false'] at marks
      exact marks
  | none =>
    rw [holds] at onWire marks
    cases onWire with
    | idle =>
      obtain ⟨front, same⟩ := capBufs_flatten bufs sendFrameBufsMax
      have shorter := front.length_le
      rw [cut] at shorter
      have next : (if msg.frameSent then opcodeContinuation else msg.opcode) =
          nextOpcode opcode frames := by
        unfold nextOpcode
        by_cases none_yet : frames = []
        · rw [if_pos none_yet, going.fresh holds none_yet]
          exact going.kind
        · rw [if_neg none_yet, if_pos (going.started none_yet)]
      have bounds := headerSize_le (capBufs bufs sendFrameBufsMax).1.flatten.length mask.isSome
      have fits := going.fits
      refine ⟨_, s.ended && !(capBufs bufs sendFrameBufsMax).2, currentFrame_new _ _ _ _ _,
        ⟨?_, next, ?_, ?_, ?_, ?_, ?_⟩, ?_, ?_⟩
      · simp only [next]
      · simp
      · simpa using shorter
      · simp only [headerBytes_length]
        omega
      · simp only
        omega
      · intro final
        simp only [Bool.and_eq_true, Bool.not_eq_true'] at final
        refine ⟨final.1, ?_⟩
        simp only [same final.2, cut, List.length_nil, Nat.zero_add]
      · simp
      · intro ceased all
        simp only [endsUnmarked, ceased, Bool.true_and] at marks ⊢
        simp only [List.length_nil, Nat.zero_add] at all
        simp only [all, cut, decide_true, Bool.and_true] at marks
        rw [marks]
        rfl

@[simp] theorem frameSent_frame (p : Protocol ε δ) (opcode : Byte) :
    (p.frameSent opcode).sendingFrame = none := by
  unfold Protocol.frameSent
  split <;> rfl

@[simp] theorem frameSent_deflate (p : Protocol ε δ) (opcode : Byte) :
    (p.frameSent opcode).deflateState = p.deflateState := by
  unfold Protocol.frameSent
  split <;> rfl

section
variable (inFlight : InFlight opcode mask frames pending ended frame consumed fin)
include inFlight

theorem InFlight.payload_length :
    (flightPayload frame consumed pending).length = frame.payloadSize := by
  have held := inFlight.held
  have before := inFlight.before
  have unsent := inFlight.unsent
  unfold flightPayload
  rw [List.length_append, List.length_take]
  omega

theorem InFlight.bytes :
    wholeFrame frame mask (flightPayload frame consumed pending) = encodedFrame mask
      ⟨fin, false, nextOpcode opcode frames, flightPayload frame consumed pending⟩ := by
  unfold wholeFrame encodedFrame
  rw [inFlight.header, inFlight.payload_length]

theorem InFlight.advance {sent : Nat}
    (more : frame.sent ≤ sent) (unsent : sent < frame.header.length + frame.payloadSize) :
    InFlight opcode mask frames
        (pending.drop (sent - frame.header.length - consumed.length)) ended { frame with sent }
        (consumed ++ pending.take (sent - frame.header.length - consumed.length)) fin ∧
      flightPayload { frame with sent }
        (consumed ++ pending.take (sent - frame.header.length - consumed.length))
        (pending.drop (sent - frame.header.length - consumed.length)) =
        flightPayload frame consumed pending := by
  have held := inFlight.held
  have before := inFlight.before
  have count : (pending.take (sent - frame.header.length - consumed.length)).length =
      sent - frame.header.length - consumed.length := by
    rw [List.length_take]
    omega
  constructor
  · refine ⟨inFlight.header, inFlight.opcode, ?_, ?_, unsent, inFlight.fits, ?_⟩
    · rw [List.length_append, count]
      simp only
      omega
    · rw [List.length_append, count, List.length_drop]
      simp only
      omega
    · intro final
      obtain ⟨ceased, all⟩ := inFlight.last final
      refine ⟨ceased, ?_⟩
      rw [List.length_append, count, List.length_drop]
      simp only
      omega
  · unfold flightPayload
    simp only
    rw [List.append_assoc, List.length_append, count, ← List.take_add]
    congr 2
    omega

end

theorem noteEnd_spec
    (noted : msg.endLen = none ∨ (s.ended = true ∧ msg.endLen = some s.pending.length)) :
    ∃ endLen, msg.noteEnd s.pending.length s.ended = some { msg with endLen } ∧
      (endLen = none ∨ (s.ended = true ∧ endLen = some s.pending.length)) := by
  obtain ⟨opcode, mask, frameSent, endLen, encOutputEnd⟩ := msg
  simp only at noted
  rcases noted with none_yet | ⟨ceased, same⟩
  · subst none_yet
    cases ceased : s.ended with
    | true => exact ⟨some s.pending.length, rfl, Or.inr ⟨rfl, rfl⟩⟩
    | false => exact ⟨none, rfl, Or.inl rfl⟩
  · subst same
    refine ⟨some s.pending.length, ?_, Or.inr ⟨ceased, rfl⟩⟩
    simp only [SendingMessage.noteEnd, ceased, and_self, if_true]

theorem lowerEnd_spec {msg : SendingMessage} {pending : List Byte} {ended : Bool}
    (noted : msg.endLen = none ∨ (ended = true ∧ msg.endLen = some pending.length)) {read : Nat}
    (most : read ≤ pending.length) :
    ∃ endLen, msg.lowerEnd read = some { msg with endLen } ∧
      (endLen = none ∨ (ended = true ∧ endLen = some (pending.drop read).length)) := by
  obtain ⟨opcode, mask, frameSent, endLen, encOutputEnd⟩ := msg
  simp only at noted
  rcases noted with none_yet | ⟨ceased, same⟩
  · subst none_yet
    exact ⟨none, rfl, Or.inl rfl⟩
  · subst same
    refine ⟨some (pending.length - read), ?_, Or.inr ⟨ceased, ?_⟩⟩
    · simp only [SendingMessage.lowerEnd, if_pos most]
    · rw [List.length_drop]

theorem sendMessageContent_plain (c : Encoder ε) {p : Protocol ε δ} (w : Writer)
    {noted : SendingMessage} {src : List (List Byte)}
    (ready : p.state.sends = true) (holds : p.sendingMessage = some msg)
    (note : msg.noteEnd src.flatten.length ended = some noted)
    (plain : p.deflateState = none ∨ noted.isControl = true) :
    p.sendMessageContent c w src ended =
      if noted.isControl ∧ (src.flatten.length > controlFramePayloadMax ∨ ¬ ended) then
        some ({ p with sendingMessage := some noted }, w, src, .error .invalidControlFrame)
      else { p with sendingMessage := some noted }.sendPlain c w noted
        (if noted.frameSent then opcodeContinuation else noted.opcode) src ended := by
  unfold Protocol.sendMessageContent
  rw [if_neg (not_not.mpr ready), holds]
  simp only [Option.bind_eq_bind, Option.bind_some, note]
  split
  · rfl
  · rcases plain with uncompressed | control
    · rw [uncompressed]
    · rw [control]
      cases p.deflateState <;> rfl

theorem MessageGoing.failed
    (going : MessageGoing opcode mask s msg frames flight consumed) {endLen : Option Nat}
    (noted : endLen = none ∨ (s.ended = true ∧ endLen = some s.pending.length))
    {frame : Option SendingFrame} {flight' : List Byte} (same : flight = flight')
    (kept : frame = none → s.protocol.sendingFrame = none)
    (onWire : OnWire opcode mask frames s.pending s.ended frame flight' consumed) :
    MessageGood opcode mask { s with
      protocol := { s.protocol with
        sendingMessage := some { msg with endLen }
        sendingFrame := frame } } := by
  subst same
  exact .going { msg with endLen } frames flight consumed ⟨going.unfinished, rfl, going.kind,
    going.masking, noted, going.started, fun none_now => going.fresh (kept none_now),
    going.opening, going.content, going.wire, onWire, going.plain, going.fits⟩

theorem MessageGoing.advanced {opcode : Byte} {mask : Option Mask} {s : Caller (Protocol ε δ)}
    {msg : SendingMessage} {frames : List Frame} {flight consumed : List Byte}
    (going : MessageGoing opcode mask s msg frames flight consumed)
    {frame : SendingFrame} {fin : Bool}
    (inFlight : InFlight opcode mask frames s.pending s.ended frame consumed fin) {sent : Nat}
    (more : frame.sent ≤ sent) (unsent : sent < frame.header.length + frame.payloadSize)
    {endLen : Option Nat}
    (noted : endLen = none ∨ (s.ended = true ∧ endLen =
      some (s.pending.drop (sent - frame.header.length - consumed.length)).length)) :
    MessageGood opcode mask { s with
      protocol := { s.protocol with
        sendingMessage := some { msg with endLen, frameSent := true }
        sendingFrame := some { frame with sent } }
      wire := encodedFrames mask frames ++
        (wholeFrame frame mask (flightPayload frame consumed s.pending)).take sent
      pending := s.pending.drop (sent - frame.header.length - consumed.length) } := by
  obtain ⟨inFlight', payload⟩ := inFlight.advance more unsent
  refine .going { msg with endLen, frameSent := true } frames _ _ ⟨going.unfinished, rfl,
    going.kind,
    going.masking, noted, fun _ => rfl, ?_, going.opening, ?_, ?_, .flying inFlight',
      going.plain, ?_⟩
  · intro absurd
    cases absurd
  · simp only [going.content, List.append_assoc, List.take_append_drop]
  · rw [payload]
    rfl
  · have fits := going.fits
    simp only [List.length_drop]
    omega

theorem MessageGoing.framed {opcode : Byte} (small : opcode < 16) {mask : Option Mask}
    {s : Caller (Protocol ε δ)} {msg : SendingMessage} {frames : List Frame}
    {flight consumed : List Byte}
    (going : MessageGoing opcode mask s msg frames flight consumed) {frame : SendingFrame}
    (inFlight : InFlight opcode mask frames s.pending s.ended frame consumed false)
    {endLen : Option Nat}
    (noted : endLen = none ∨ (s.ended = true ∧ endLen =
      some (s.pending.drop (frame.payloadSize - consumed.length)).length))
    {p : Protocol ε δ} (message : p.sendingMessage = some { msg with endLen, frameSent := true })
    (ceased : p.sendingFrame = none) (deflate : p.deflateState = s.protocol.deflateState) :
    MessageGood opcode mask { s with
      protocol := p
      wire := encodedFrames mask frames ++
        wholeFrame frame mask (flightPayload frame consumed s.pending)
      pending := s.pending.drop (frame.payloadSize - consumed.length) } := by
  have size := inFlight.payload_length
  refine .going { msg with endLen, frameSent := true }
    (frames ++ [⟨false, false, nextOpcode opcode frames, flightPayload frame consumed s.pending⟩])
      [] []
    ⟨going.unfinished, message, going.kind, going.masking, noted, fun _ => rfl, ?_,
      going.opening.snoc small (by rw [size]; exact inFlight.fits), ?_, ?_, ?_, ?_, ?_⟩
  · intro _ empty
    exact absurd empty (by simp)
  · simp [going.content, flightPayload]
  · rw [inFlight.bytes]
    simp [encodedFrames]
  · simp only [ceased]
    exact .idle
  · simp only [deflate]
    exact going.plain
  · have fits := going.fits
    simp only [List.length_drop]
    omega

theorem MessageGoing.ends (small : opcode < 16)
    (going : MessageGoing opcode mask s msg frames flight consumed)
    (inFlight : InFlight opcode mask frames s.pending s.ended frame consumed true)
    (all : frame.payloadSize = consumed.length + s.pending.length) (ceased : s.ended = true)
    {p : Protocol ε δ} :
    MessageGood opcode mask { s with
      protocol := p
      wire := encodedFrames mask frames ++
        wholeFrame frame mask (flightPayload frame consumed s.pending)
      pending := pending
      done := true } := by
  have size := inFlight.payload_length
  have payload : flightPayload frame consumed s.pending = consumed ++ s.pending := by
    unfold flightPayload
    rw [List.take_of_length_le (by omega)]
  refine .finished rfl ceased ?_
  have bytes := inFlight.bytes
  rw [payload] at bytes
  simp only [going.content, payload, bytes]
  refine going.opening.ends small mask ?_
  rw [← payload, size]
  exact inFlight.fits

theorem message_send_good (c : Encoder ε) (small : opcode < 16)
    (going : MessageGoing opcode mask s msg frames flight consumed) {bufs : List (List Byte)}
    {schedule : List Response} (cut : bufs.flatten = s.pending)
    (ready : s.protocol.state.sends = true)
    (marks : endsUnmarked s.protocol.sendingFrame bufs s.ended = false) :
    ∃ next, messageStep c s (.send bufs schedule) = some next ∧ MessageGood opcode mask next := by
  have masking := going.masking
  subst masking
  obtain ⟨endLen, note, noted⟩ := noteEnd_spec going.noted
  obtain ⟨frame, fin, cur, inFlight, flightEq, finalIf⟩ := frame_at_work small going cut marks
  rw [← cut] at note
  have called := sendMessageContent_plain c ⟨s.wire, schedule⟩ ready going.holds note going.plain
  simp only [messageStep, Caller.step, called]
  by_cases rejected : SendingMessage.isControl { msg with endLen } = true ∧
      (bufs.flatten.length > controlFramePayloadMax ∨ ¬ s.ended = true)
  · rw [if_pos rejected]
    refine ⟨_, rfl, ?_⟩
    have kept := going.failed noted rfl (fun same => same) going.onWire
    simpa [messageReply, cut] using kept
  · rw [if_neg rejected]
    have before := inFlight.before
    have held := inFlight.held
    have unsent := inFlight.unsent
    have payload : flightPayload frame consumed s.pending =
        consumed ++ bufs.flatten.take (frame.payloadSize - consumed.length) := by
      rw [cut]
      rfl
    have wire : s.wire = encodedFrames msg.mask frames ++
        (wholeFrame frame msg.mask (flightPayload frame consumed s.pending)).take frame.sent := by
      rw [going.wire, flightEq]
    rcases sendFrame_spec (p := { s.protocol with sendingMessage := some { msg with endLen } })
        (w := ⟨s.wire, schedule⟩) ready cur before payload inFlight.payload_length unsent wire with
      ⟨kind, rest, src, sent, restored⟩ | ⟨count, rest, src, more, less, sent, restored⟩ |
      ⟨rest, src, sent, restored⟩
    · simp only [Protocol.sendPlain, sent]
      refine ⟨_, rfl, ?_⟩
      have kept := going.failed noted flightEq (fun absurd => by cases absurd) (.flying inFlight)
      simpa [messageReply, restored, cut] using kept
    · -- the frame is still in flight, so the message is not over
      obtain ⟨endLen', lowered, noted'⟩ := @lowerEnd_spec { msg with endLen } _ _ noted _
        (by omega : count - frame.header.length - consumed.length ≤ s.pending.length)
      simp only [Protocol.sendPlain, sent, Option.bind_eq_bind, Option.bind_some, lowered,
        Protocol.endMessage, Option.isNone_some, Bool.false_eq_true, and_false, if_false]
      refine ⟨_, rfl, ?_⟩
      have kept := going.advanced inFlight more less noted'
      simpa [messageReply, restored, cut] using kept
    · have most : frame.payloadSize - consumed.length ≤ s.pending.length := by omega
      obtain ⟨endLen', lowered, noted'⟩ := @lowerEnd_spec { msg with endLen } _ _ noted _ most
      simp only [Protocol.sendPlain, sent, Option.bind_eq_bind, Option.bind_some, lowered,
        Protocol.endMessage, frameSent_frame, Option.isNone_none, and_true]
      by_cases whole :
          (s.ended && decide (frame.payloadSize - consumed.length = bufs.flatten.length)) = true
      · rw [if_pos whole]
        refine ⟨_, rfl, ?_⟩
        simp only [Bool.and_eq_true, decide_eq_true_eq, cut] at whole
        have all : frame.payloadSize = consumed.length + s.pending.length := by omega
        have final := finalIf whole.1 all
        subst final
        simp only [restored, cut]
        exact going.ends small inFlight all whole.1
      · rw [if_neg whole]
        refine ⟨_, rfl, ?_⟩
        have notFinal : fin = false := by
          cases fin with
          | false => rfl
          | true =>
            obtain ⟨ceased, all⟩ := inFlight.last rfl
            refine absurd ?_ whole
            simp only [ceased, cut, Bool.true_and, decide_eq_true_eq]
            omega
        subst notFinal
        simp only [restored, cut]
        exact going.framed small inFlight noted' rfl (by simp) (by simp)

theorem message_step_good (c : Encoder ε) (small : opcode < 16) (mask : Option Mask)
    (s : Caller (Protocol ε δ)) (event : CallEvent) (good : MessageGood opcode mask s)
    (ok : marked s event = true) :
    ∃ next, messageStep c s event = some next ∧ MessageGood opcode mask next := by
  cases good with
  | finished finished ceased message =>
    cases event with
    | append data => simp [marked, permitted, Caller.allowed, ceased] at ok
    | finish => exact ⟨_, rfl, .finished finished rfl message⟩
    | send bufs schedule => simp [marked, permitted, Caller.allowed, finished] at ok
  | going msg frames flight consumed going =>
    cases event with
    | append data =>
      simp only [marked, permitted, Caller.allowed, Bool.and_true, Bool.and_eq_true,
        Bool.not_eq_true', decide_eq_true_eq] at ok
      have noted : msg.endLen = none := by
        rcases going.noted with none_yet | ⟨ceased, _⟩
        · exact none_yet
        · rw [ok.1] at ceased
          cases ceased
      refine ⟨_, rfl, .going msg frames flight consumed ⟨going.unfinished, going.holds, going.kind,
        going.masking, Or.inl noted, going.started, going.fresh, going.opening, ?_, going.wire,
        going.onWire.append ok.1 data, going.plain, ok.2⟩⟩
      simp only [going.content, List.append_assoc]
    | finish =>
      have noted : msg.endLen = none ∨ (true = true ∧ msg.endLen = some s.pending.length) := by
        rcases going.noted with none_yet | ⟨_, same⟩
        · exact Or.inl none_yet
        · exact Or.inr ⟨rfl, same⟩
      exact ⟨_, rfl, .going msg frames flight consumed ⟨going.unfinished, going.holds, going.kind,
        going.masking, noted, going.started, going.fresh, going.opening, going.content, going.wire,
        going.onWire.finish, going.plain, going.fits⟩⟩
    | send bufs schedule =>
      simp only [marked, permitted, Caller.allowed, Bool.and_eq_true, Bool.not_eq_true',
        decide_eq_true_eq] at ok
      obtain ⟨⟨⟨_, cut⟩, ready⟩, marks⟩ := ok
      exact message_send_good c small going cut ready marks

theorem message_start_good (mask : Option Mask) {p p' : Protocol ε δ}
    (idle : p.sendingFrame = none) (started : p.sendMessageStart opcode mask = some p')
    (plain : p.deflateState = none ∨ opcode &&& 0x08 ≠ 0) :
    MessageGood opcode mask (Caller.start p') := by
  unfold Protocol.sendMessageStart at started
  split at started
  · cases started
  · cases started
    refine .going ⟨opcode, mask, false, none, false⟩ [] [] [] ⟨rfl, rfl, rfl, rfl, Or.inl rfl,
      fun absurd => (absurd rfl).elim, fun _ _ => rfl, .nil opcode, rfl, rfl, ?_, ?_, ?_⟩
    · simp only [Caller.start, idle]
      exact .idle
    · simpa [Caller.start, SendingMessage.isControl] using plain
    · simp [Caller.start]

end

/-- In every run in which no call with the end of the message works on a frame
    that takes all of the bytes without a FIN bit, a message that is reported as
    done is on the wire as frames that carry its content. -/
theorem done_messages_are_framed {ε δ : Type} (c : Encoder ε) {opcode : Byte} (small : opcode < 16)
    (mask : Option Mask) {p p' : Protocol ε δ} (idle : p.sendingFrame = none)
    (started : p.sendMessageStart opcode mask = some p')
    (plain : p.deflateState = none ∨ opcode &&& 0x08 ≠ 0) (events : List CallEvent)
    (marking : along (messageStep c) marked (.start p') events = true) :
    ∃ s, run (messageStep c) (.start p') events = some s ∧
      (s.done = true → IsMessage opcode s.content s.wire) := by
  obtain ⟨s, ran, good⟩ :=
    run_rule (MessageGood opcode mask) (message_step_good c small mask) events
      (message_start_good mask idle started plain) marking
  refine ⟨s, ran, ?_⟩
  intro done
  cases good with
  | going _ _ _ _ going => rw [going.unfinished] at done; cases done
  | finished _ _ message => exact message

def noEncoder : Encoder Unit := ⟨fun _ _ _ _ => none, id⟩

def openSession : Protocol Unit Unit := ⟨.connected, none, none, none, none, none⟩

def sendingText : Protocol Unit Unit :=
  { openSession with sendingMessage := some ⟨opcodeText, some ⟨1, 2, 3, 4⟩, false, none, false⟩ }

def greetingEvents : List CallEvent :=
  [.append [104, 101], .send [[104, 101]] [.accept 1], .append [108], .finish,
    .send [[104], [101, 108]] [.accept 6], .send [[101, 108]] [.fail .wouldBlock],
    .send [[101], [108]] [.accept 9], .send [[108]] [.accept 9]]

theorem greeting_is_framed :
    along (messageStep noEncoder) marked (.start sendingText) greetingEvents = true ∧
    ∃ s, run (messageStep noEncoder) (.start sendingText) greetingEvents = some s ∧
      (s.done = true → IsMessage opcodeText s.content s.wire) := by
  have marking : along (messageStep noEncoder) marked (.start sendingText) greetingEvents =
      true := by
    decide +kernel
  exact ⟨marking, done_messages_are_framed noEncoder (by decide) (some ⟨1, 2, 3, 4⟩)
    (p := openSession) rfl rfl (Or.inl rfl) greetingEvents marking⟩

def unmarkedEvents : List CallEvent :=
  [.append [104, 105], .send [[104, 105]] [.accept 1], .finish, .send [[104, 105]] [.accept 9]]

theorem late_end_leaves_message_open :
    along (messageStep noEncoder) permitted (.start sendingText) unmarkedEvents = true ∧
    ∃ s, run (messageStep noEncoder) (.start sendingText) unmarkedEvents = some s ∧
      s.done = true ∧ s.content = [104, 105] ∧
      parseFrames s.wire = some [⟨false, false, opcodeText, [104, 105]⟩] ∧
      ¬ IsMessage opcodeText s.content s.wire := by
  have parsed : parseFrames [0x01, 0x82, 1, 2, 3, 4, 105, 107] =
      some [⟨false, false, opcodeText, [104, 105]⟩] := by decide +kernel
  refine ⟨by decide +kernel, _, rfl, rfl, rfl, parsed, ?_⟩
  rintro ⟨frames, found, _, _, fins⟩
  have same := found.symm.trans parsed
  cases same
  exact absurd fins (by decide)

end PushpinWebSocket
