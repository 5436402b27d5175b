import Pushpin.Core.ZhttpRequest

namespace PushpinZhttpRequest
open PushpinZhttpPackets ZhttpRequest

def Sends (n : Nat) (s t : ZhttpRequest) : Prop := t.sent.length ≤ s.sent.length + n

variable {m n : Nat} {s t u : ZhttpRequest}

theorem Sends.trans (first : Sends m s t) (second : Sends n t u) : Sends (m + n) s u := by
  unfold Sends at *
  omega

theorem Sends.more (few : Sends m s t) (le : m ≤ n) : Sends n s t := by
  unfold Sends at *
  omega

theorem Sends.silent (sent : t.sent = s.sent) : Sends n s t := by
  rw [Sends, sent]
  exact Nat.le_add_right ..

theorem writeRequest_sends (packet : ZhttpRequestPacket) (s : ZhttpRequest) :
    Sends 1 s (s.writeRequest packet) := by
  unfold Sends writeRequest
  split_ifs <;> simp [abort]

theorem writeResponse_sends (packet : ZhttpResponsePacket) (s : ZhttpRequest) :
    Sends 1 s (s.writeResponse packet) := by
  unfold Sends writeResponse
  split_ifs <;> simp [abort]

theorem outSeqInc_sends (s : ZhttpRequest) : Sends 1 s s.outSeqInc := by
  unfold Sends outSeqInc
  split_ifs <;> simp [abort]

theorem keepAliveTimeout_sends (s : ZhttpRequest) : Sends 1 s s.keepAliveTimeout := by
  unfold keepAliveTimeout
  split_ifs
  · exact writeResponse_sends _ s
  · exact writeRequest_sends _ s

theorem startKeepAlive_sends (s : ZhttpRequest) : Sends 1 s s.startKeepAlive := by
  unfold startKeepAlive
  split_ifs
  · exact Sends.silent rfl
  · exact keepAliveTimeout_sends s
  · exact Sends.silent rfl
  · exact Sends.silent rfl

theorem switchMulti_sends (multi restart : Bool) (s : ZhttpRequest) :
    Sends 1 s (s.switchMulti multi restart) := by
  unfold switchMulti
  split_ifs
  · exact startKeepAlive_sends { s with multi := true }
  · exact Sends.silent rfl
  · exact Sends.silent rfl

theorem trySendPause_sends (s : ZhttpRequest) : Sends 1 s s.trySendPause := by
  unfold trySendPause
  split_ifs
  · exact writeResponse_sends _ { s with needPause := false }
  · exact Sends.silent rfl

theorem writeResponseBody_sends (packet : ZhttpResponsePacket) (s : ZhttpRequest) :
    Sends 1 s (s.writeResponseBody packet) := by
  unfold writeResponseBody
  dsimp only
  split_ifs <;> exact writeResponse_sends _ { s with responseBodyBuf := _, outCredits := _ }

theorem then_offer (few : Sends (1 + n) s t) :
    Sends (2 + n) s (if t.deleted then t else t.trySendPause) := by
  split_ifs
  · exact few.more (by omega)
  · exact (few.trans (trySendPause_sends t)).more (by omega)

section
variable {app : ZhttpRequest → ZhttpRequest} (answers : ∀ t, Sends n t (app t))
include answers

theorem tryWrite_sends (s : ZhttpRequest) : Sends (2 + n) s (s.tryWrite app) := by
  have written : Sends (1 + n) s
      (if s.state = .clientRequesting then
        if s.requestBodyBuf.isEmpty && s.bodyFinished then app s.writeRequestEnd
        else if !s.requestBodyBuf.isEmpty && 0 < s.outCredits then app s.writeRequestBody
        else s
      else if s.state = .clientReceiving then
        if 0 < s.pendingInCredits then s.writeRequestCredits else s
      else if s.state = .serverResponding then
        if (!s.responseBodyBuf.isEmpty && 0 < s.outCredits) ||
          (s.responseBodyBuf.isEmpty && s.bodyFinished) then
          s.tryWriteResponse app
        else s
      else s) := by
    split_ifs
    · exact (writeRequest_sends _ { s with state := .clientReceiving }).trans
        (answers s.writeRequestEnd)
    · exact (writeRequest_sends _ { s with
        requestBodyBuf := _, outCredits := _, writableChanged := true, pendingInCredits := _
        state := _ }).trans (answers s.writeRequestBody)
    · exact Sends.silent rfl
    · exact (writeRequest_sends _ { s with pendingInCredits := 0 }).more (by omega)
    · exact Sends.silent rfl
    · refine Sends.trans ?_ (answers _)
      exact writeResponseBody_sends _ { s with writableChanged := _ }
    · exact Sends.silent rfl
    · exact Sends.silent rfl
  exact then_offer written

theorem startResponse_sends (s : ZhttpRequest) : Sends (2 + n) s (s.startResponse app) := by
  have written := writeResponseBody_sends
    { type := .data, code := s.responseCode, reason := s.responseReason,
      headers := s.responseHeaders }
    { s with state := .serverResponding }
  have answered : ∀ (c : Bool) (t : ZhttpRequest) (size : Nat), Sends 1 s t →
      Sends (1 + n) s (if c = true then app (t.signal (.bytesWritten size)) else t) := by
    intro c t size few
    cases c
    · exact few.more (by omega)
    · exact few.trans (answers (t.signal (.bytesWritten size)))
  exact then_offer (answered _ _ _ written)

end

theorem readBody_sends (size : Int) (s : ZhttpRequest) : Sends 2 s (s.readBody size) := by
  unfold readBody
  dsimp only
  split_ifs
  · exact Sends.silent rfl
  · exact (writeResponse_sends _ { s with requestBodyBuf := _, pendingInCredits := 0 }).more
      (by omega)
  · exact Sends.silent rfl
  · exact Sends.silent rfl
  · exact @tryWrite_sends 0 id (fun _ => Sends.silent rfl) { s with
      responseBodyBuf := _, pendingInCredits := _ }
  · exact Sends.silent rfl

theorem tryCancel_sends (s : ZhttpRequest) : Sends 1 s s.tryCancel := by
  unfold tryCancel
  split_ifs
  · exact Sends.silent rfl
  · exact writeRequest_sends _ { s with state := .stopped }
  · exact writeResponse_sends _ { s with state := .stopped }
  · exact Sends.silent rfl

theorem make_sends (call : Call) (s : ZhttpRequest) : Sends 2 s (call.make s) := by
  cases call with
  | start method uri headers => exact Sends.silent rfl
  | beginResponse code reason headers => exact Sends.silent rfl
  | writeBody body =>
    refine Sends.silent ?_
    simp only [Call.make, writeBody]
    split_ifs <;> rfl
  | endBody => exact Sends.silent rfl
  | readBody size => exact readBody_sends size s
  | pause =>
    refine Sends.silent ?_
    simp only [Call.make, pause, stopKeepAlive]
    split_ifs <;> rfl
  | resume =>
      exact Sends.trans (startKeepAlive_sends { s with paused := false }) (writeResponse_sends _ _)
  | destroy =>
    simp only [Call.make, destroy]
    split_ifs
    · exact (tryCancel_sends s).more (by omega)
    · exact Sends.silent rfl

theorem answer_sends (calls : List Call) (s : ZhttpRequest) :
    Sends (2 * calls.length) s (answer calls s) := by
  induction calls generalizing s with
  | nil => exact Sends.silent rfl
  | cons call calls ih =>
    rw [answer, List.foldl_cons, List.length_cons]
    split
    · exact ((make_sends call s).trans (ih _)).more (by omega)
    · exact (ih s).more (by omega)

theorem startReq_sends (s : ZhttpRequest) : Sends 1 s s.startReq := by
  unfold startReq
  split_ifs
  · exact Sends.silent rfl
  · exact writeRequest_sends _ { s with requestBodyBuf := [] }
  · exact Sends.silent rfl

theorem startStream_sends (canWriteImmediately : Bool) (s : ZhttpRequest) :
    Sends 1 s (s.startStream canWriteImmediately) := by
  unfold startStream
  dsimp only
  split_ifs
  · exact Sends.silent rfl
  all_goals exact writeRequest_sends _ { s with requestBodyBuf := _ }

theorem ackRequest_sends (s : ZhttpRequest) : Sends 1 s s.ackRequest := by
  unfold ackRequest
  split_ifs
  · exact writeResponse_sends _ { s with state := .serverResponseWait }
  · exact writeResponse_sends _ { s with state := .serverReceiving }

theorem emitReadable_sends (s : ZhttpRequest) : Sends 0 s s.emitReadable := by
  refine Sends.silent ?_
  unfold emitReadable
  split_ifs <;> rfl

theorem emitWritable_sends (s : ZhttpRequest) : Sends 0 s s.emitWritable := by
  refine Sends.silent ?_
  unfold emitWritable
  split_ifs <;> rfl

theorem updateState_sends (canWriteImmediately : Bool) {app : ZhttpRequest → ZhttpRequest}
    (answers : ∀ t, Sends n t (app t)) (s : ZhttpRequest) :
    Sends (2 + n) s (s.updateState canWriteImmediately app) := by
  have writing : Sends (2 + n) s
      (if (s.tryWrite app).deleted then s.tryWrite app else (s.tryWrite app).emitWritable) := by
    split_ifs
    · exact tryWrite_sends answers s
    · exact (tryWrite_sends answers s).trans (emitWritable_sends _)
  unfold updateState
  split
  · split_ifs
    · exact (startReq_sends s).more (by omega)
    · exact (startStream_sends canWriteImmediately s).more (by omega)
  · exact writing
  · exact writing
  · exact (emitReadable_sends s).more (by omega)
  · exact (emitReadable_sends s).more (by omega)
  · exact (ackRequest_sends s).more (by omega)
  · exact ((trySendPause_sends s).trans (emitReadable_sends _)).more (by omega)
  · exact startResponse_sends answers s
  · exact Sends.silent rfl

theorem addCredits_sent (credits : Int) (s : ZhttpRequest) :
    (s.addCredits credits).sent = s.sent := by
  unfold addCredits
  split_ifs <;> rfl

theorem takeRequest_sends (packet : ZhttpRequestPacket) (s : ZhttpRequest) :
    Sends 0 s (s.takeRequest packet) := by
  refine Sends.silent ?_
  unfold takeRequest updateIfChanged
  split <;> try split_ifs
  · exact addCredits_sent packet.credits (s.takeRequestData packet)
  · exact addCredits_sent packet.credits (s.takeRequestData packet)
  · exact addCredits_sent packet.credits s
  all_goals rfl

theorem handleRequest_sends (seq : Int) (packet : ZhttpRequestPacket) (s : ZhttpRequest) :
    Sends 1 s (s.handleRequest seq packet) := by
  have counted : ∀ inSeq multi restart,
      Sends 1 s (({ s with inSeq := inSeq }.switchMulti multi restart).refreshTimeout.takeRequest
        packet) := by
    intro inSeq multi restart
    have switched := switchMulti_sends multi restart { s with inSeq := inSeq }
    generalize { s with inSeq := inSeq }.switchMulti multi restart = t at *
    exact Sends.trans (n := 0) switched (takeRequest_sends packet t.refreshTimeout)
  unfold handleRequest
  split
  · exact Sends.silent rfl
  · split
    · exact Sends.silent rfl
    · split
      · exact Sends.silent rfl
      · split
        · exact writeResponse_sends _ s
        · exact counted _ _ _

def Event.packets : Event → Nat
  | .update _ calls => 2 + 2 * calls.length
  | _ => 2

theorem take_sends (server : s.server = true) {event : Event} (possible : event.possible s = true) :
    Sends event.packets s (event.take s) := by
  cases event with
  | request seq packet => exact (handleRequest_sends seq packet s).more (Nat.le_succ 1)
  | response seq packet => simp [Event.possible, server] at possible
  | update canWriteImmediately calls =>
    exact updateState_sends canWriteImmediately (answer_sends calls)
      { s with pendingUpdate := false }
  | call made => exact make_sends made s
  | startServer =>
    exact (startKeepAlive_sends { s with state := .serverStarting, started := true }).more
      (Nat.le_succ 1)
  | expire => exact Sends.silent rfl
  | keepAlive => exact (keepAliveTimeout_sends s).more (Nat.le_succ 1)
  | refresh => exact (outSeqInc_sends s).more (Nat.le_succ 1)

end PushpinZhttpRequest
