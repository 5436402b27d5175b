import Pushpin.Http.ChunkSending

namespace PushpinHttp
open PushpinRingBuffer PushpinVectored PushpinCaller Scanning Runs

section
variable {σ : Type}

def Sender.step (sender : Sender σ) (headers : Option (List Byte)) : Caller σ → CallEvent →
    Option (Caller σ) :=
  Caller.step fun p w bufs ended =>
    (sender.send p w bufs ended headers).map fun (p, w, reply) => (p, w, bufs, reply)

/-- An allowed event that is not a call which loses its count or uncovers the
    chunk in flight. -/
def Sender.clean (sender : Sender σ) (s : Caller σ) (event : CallEvent) : Bool :=
  s.allowed event &&
    match event with
    | .send bufs schedule =>
      !uncovers (sender.chunk s.protocol) (capBufs bufs sendBodyBufsMax).1 schedule &&
        !losesCount (sender.chunk s.protocol) bufs s.ended schedule
    | _ => true

inductive Good (sender : Sender σ) (footer : List Byte) (s : Caller σ) : Prop where
  | going (unfinished : s.done = false) (ready : sender.Ready s.protocol)
      (framed : Framed footer s.content s.pending s.wire s.ended (sender.chunk s.protocol))
  | finished (finished : s.done = true) (ceased : s.ended = true) (empty : s.pending = [])
      (closed : Closed footer s.content s.wire)

theorem start_good (sender : Sender σ) (footer : List Byte) {protocol : σ}
    (ready : sender.Ready protocol) (fresh : sender.chunk protocol = none) :
    Good sender footer (Caller.start protocol) := by
  refine .going rfl ready ⟨[], [], by simp, rfl, rfl, ?_⟩
  simp only [Caller.start, fresh]
  exact .idle

section
variable {sender : Sender σ} {footer : List Byte} {s : Caller σ} (good : Good sender footer s)
include good

theorem append_good (going : s.ended = false) (data : List Byte) :
    Good sender footer { s with pending := s.pending ++ data, content := s.content ++ data } := by
  cases good with
  | going unfinished ready framed =>
    obtain ⟨pieces, flight, sizes, split, wire, f⟩ := framed
    refine .going unfinished ready ⟨pieces, flight, sizes, ?_, wire, f.append going⟩
    simp only [split, List.append_assoc]
  | finished _ ceased => rw [going] at ceased; cases ceased

theorem finish_good : Good sender footer { s with ended := true } := by
  cases good with
  | going unfinished ready framed =>
    obtain ⟨pieces, flight, sizes, split, wire, f⟩ := framed
    exact .going unfinished ready ⟨pieces, flight, sizes, split, wire, f.finish⟩
  | finished finished _ empty closed => exact .finished finished rfl empty closed

end

theorem send_good {sender : Sender σ} {headers : Option (List Byte)} {s : Caller σ}
    (good : Good sender (headers.getD chunkFooter) s) {bufs : List (List Byte)}
    {schedule : List Response} (ok : sender.clean s (.send bufs schedule) = true) :
    ∃ next, sender.step headers s (.send bufs schedule) = some next ∧
      Good sender (headers.getD chunkFooter) next := by
  simp only [Sender.clean, Caller.allowed, Bool.and_eq_true, Bool.not_eq_true',
    decide_eq_true_eq] at ok
  obtain ⟨⟨unfinished, cut⟩, safe, kept⟩ := ok
  cases good with
  | finished finished => rw [unfinished] at finished; cases finished
  | going _ ready framed =>
    have front := (capBufs_flatten bufs sendBodyBufsMax).1
    rw [cut] at front
    obtain ⟨chunk', w', reply, called, replied⟩ :=
      sendChunks_spec (w := ⟨s.wire, schedule⟩) framed cut safe kept
    obtain ⟨p', sent, holds, stays⟩ := sender.sends ready
      (writeContent_count (w := ⟨s.wire, schedule⟩) framed (capBufs_length bufs _) front safe)
        called
    subst holds
    simp only [Sender.step, Caller.step, sent, Option.map_some, Option.bind_eq_bind,
      Option.bind_some, cut]
    cases reply with
    | consumed count => exact ⟨_, rfl, .going unfinished (stays (by simp)) replied⟩
    | finished count =>
      obtain ⟨ceased, empty, closed⟩ := replied
      exact ⟨_, rfl, .finished rfl ceased empty closed⟩
    | failed => exact ⟨_, rfl, .going unfinished (stays (by simp)) replied⟩

theorem step_good (sender : Sender σ) (headers : Option (List Byte)) (s : Caller σ)
    (event : CallEvent) (good : Good sender (headers.getD chunkFooter) s)
    (ok : sender.clean s event = true) :
    ∃ next, sender.step headers s event = some next ∧
      Good sender (headers.getD chunkFooter) next := by
  cases event with
  | append data =>
    simp only [Sender.clean, Caller.allowed, Bool.and_true, Bool.not_eq_true'] at ok
    exact ⟨_, rfl, append_good good ok data⟩
  | finish => exact ⟨_, rfl, finish_good good⟩
  | send bufs schedule => exact send_good good ok

structure Delivered (s : Caller σ) : Prop where
  nothing : s.pending = []
  encodes : Encodes scanners s.wire s.content
  decodes : decode scanners ChunkState.start s.wire = ⟨s.content, .finished []⟩

def OnTheWay (s : Caller σ) : Prop := ∃ rest, Encodes scanners (s.wire ++ rest) s.content

end

theorem Framed.completes {footer content pending wire : List Byte} {ended : Bool}
    {chunk : Option Chunk} {headers : Headers}
    (framed : Framed footer content pending wire ended chunk)
    (ends : scanners.parseHeaders headersMax footer = .complete footer.length headers) :
    ∃ rest, Encodes scanners (wire ++ rest) content := by
  obtain ⟨pieces, flight, sizes, split, wireEq, f⟩ := framed
  -- what is left of the content may go out a byte at a time
  have bytes : ∀ data : List Byte, (data.map fun b => [b]).flatten = data := by
    intro data
    induction data with
    | nil => rfl
    | cons b data ih => simp only [List.map_cons, List.flatten_cons, ih, List.singleton_append]
  have singles : ∀ data : List Byte, ∀ piece ∈ data.map fun b => [b],
      0 < piece.length ∧ piece.length ≤ chunkSizeMax := by
    intro data piece mem
    obtain ⟨b, _, rfl⟩ := List.mem_map.mp mem
    exact ⟨Nat.one_pos, Nat.le_of_ble_eq_true rfl⟩
  have enough : ∀ more : List (List Byte),
      (∀ piece ∈ more, 0 < piece.length ∧ piece.length ≤ chunkSizeMax) → more.flatten = pending →
      Encodes scanners (encodedChunks pieces ++ (encodedChunks more ++ (chunkHeader 0 ++ footer)))
        content := by
    intro more fit whole
    have all := encodedChunks_encodes ends (pieces ++ more) (by
      intro piece mem
      rcases List.mem_append.mp mem with old | new
      · exact sizes piece old
      · exact fit piece new)
    rw [List.flatten_append, whole, ← split] at all
    simpa [encodedChunks] using all
  subst wireEq
  cases f with
  | idle =>
    refine ⟨encodedChunks (pending.map fun b => [b]) ++ (chunkHeader 0 ++ footer), ?_⟩
    rw [List.append_nil]
    exact enough _ (singles pending) (bytes pending)
  | content filled inside small unsent =>
    rename_i size sent
    have whole := enough (pending.take size :: (pending.drop size).map fun b => [b])
      (by
        intro piece mem
        rcases List.mem_cons.mp mem with rfl | mem
        · rw [List.length_take]
          omega
        · exact singles _ piece mem)
      (by rw [List.flatten_cons, bytes, List.take_append_drop])
    refine ⟨(encodedChunk (pending.take size)).drop sent ++
      (encodedChunks ((pending.drop size).map fun b => [b]) ++ (chunkHeader 0 ++ footer)), ?_⟩
    rw [List.append_assoc, ← List.append_assoc (List.take _ _), List.take_append_drop]
    simpa [encodedChunks] using whole
  | closing ceased empty unsent =>
    rename_i sent
    refine ⟨(chunkHeader 0 ++ footer).drop sent, ?_⟩
    rw [List.append_assoc, List.take_append_drop]
    exact enough [] (by simp) (by rw [empty]; rfl)

theorem Closed.encodes {footer content wire : List Byte} {headers : Headers}
    (closed : Closed footer content wire)
    (ends : scanners.parseHeaders headersMax footer = .complete footer.length headers) :
    Encodes scanners wire content := by
  obtain ⟨pieces, sizes, split, wireEq⟩ := closed
  subst split
  subst wireEq
  exact encodedChunks_encodes ends pieces sizes

theorem run_delivers {σ : Type} (sender : Sender σ) {headers : Option (List Byte)}
    {trailers : Headers}
    (ends : scanners.parseHeaders headersMax (headers.getD chunkFooter) =
      .complete (headers.getD chunkFooter).length trailers)
    {protocol : σ} (ready : sender.Ready protocol) (fresh : sender.chunk protocol = none)
    (events : List CallEvent)
    (cleanly : along (sender.step headers) sender.clean (.start protocol) events = true) :
    ∃ s, run (sender.step headers) (.start protocol) events = some s ∧ OnTheWay s ∧
      (s.done = true → Delivered s) := by
  obtain ⟨s, ran, good⟩ := run_rule (Good sender (headers.getD chunkFooter))
    (step_good sender headers) events (start_good sender _ ready fresh) cleanly
  refine ⟨s, ran, ?_⟩
  cases good with
  | going unfinished _ framed =>
    refine ⟨framed.completes ends, ?_⟩
    rw [unfinished]
    intro absurd
    cases absurd
  | finished _ _ empty closed =>
    have encodes := closed.encodes ends
    refine ⟨⟨[], by rw [List.append_nil]; exact encodes⟩, fun _ => ⟨empty, encodes, ?_⟩⟩
    have decoded := encodes_decode scanners_lawful encodes []
    rw [List.append_nil] at decoded
    exact decoded

/-- In every run without a lost count and without an uncovered chunk, the wire
    holds a beginning of a valid encoding, and once the sender has finished one
    whole encoding of the content. -/
theorem chunked_sending_is_exactly_once {headers : Option (List Byte)} {trailers : Headers}
    (ends : scanners.parseHeaders headersMax (headers.getD chunkFooter) =
      .complete (headers.getD chunkFooter).length trailers) :
    (∀ p : ServerProtocol, p.SendsChunks → p.sendingChunk = none → ∀ events,
      along (serverSender.step headers) serverSender.clean (.start p) events = true →
      ∃ s, run (serverSender.step headers) (.start p) events = some s ∧ OnTheWay s ∧
        (s.done = true → Delivered s)) ∧
    (∀ state : ClientState, state.SendsChunks → state.sendingChunk = none → ∀ events,
      along (clientSender.step headers) clientSender.clean (.start state) events = true →
      ∃ s, run (clientSender.step headers) (.start state) events = some s ∧ OnTheWay s ∧
        (s.done = true → Delivered s)) := by
  constructor
  · intro p ready fresh events cleanly
    exact run_delivers serverSender ends ready fresh events cleanly
  · intro state ready fresh events cleanly
    exact run_delivers clientSender ends ready fresh events cleanly

def chunkedServer : ServerProtocol :=
  ⟨.sendingBody, .unknown, none, 0, true, true, none⟩

def helloBytes : List Byte := [104, 101, 108, 108, 111]

def helloEvents : List CallEvent :=
  [.append helloBytes, .send [helloBytes] [.accept 4], .finish,
    .send [[104, 101], [108, 108, 111]] [.accept 50, .accept 2], .send [] [.fail .wouldBlock],
    .send [] [.accept 50]]

theorem hello_is_sent_once :
    along (serverSender.step none) serverSender.clean (.start chunkedServer)
      helloEvents = true ∧
    ∃ s, run (serverSender.step none) (.start chunkedServer) helloEvents = some s ∧
      OnTheWay s ∧ (s.done = true → Delivered s) := by
  have cleanly : along (serverSender.step none) serverSender.clean
      (.start chunkedServer) helloEvents = true := by decide +kernel
  have ends : scanners.parseHeaders headersMax ((none : Option (List Byte)).getD chunkFooter) =
      .complete ((none : Option (List Byte)).getD chunkFooter).length [] := by decide +kernel
  exact ⟨cleanly, (chunked_sending_is_exactly_once ends).1 chunkedServer ⟨rfl, by decide, rfl⟩ rfl
    helloEvents cleanly⟩

def lostEvents : List CallEvent :=
  [.append helloBytes, .finish, .send [helloBytes] [.accept 50, .fail .wouldBlock],
    .send [helloBytes] [.accept 50, .accept 50], .send [helloBytes] [.accept 50, .accept 50]]

theorem lost_count_sends_content_twice :
    along (serverSender.step none) Caller.allowed (.start chunkedServer) lostEvents = true ∧
    ∃ s, run (serverSender.step none) (.start chunkedServer) lostEvents = some s ∧
      s.done = true ∧ s.content = helloBytes ∧
      s.wire = encodedChunk helloBytes ++ (chunkHeader 0 ++ crlf) ++
        (encodedChunk helloBytes ++ (chunkHeader 0 ++ crlf)) ∧ ¬ Delivered s := by
  refine ⟨by decide +kernel, _, rfl, rfl, rfl, by decide +kernel, ?_⟩
  intro delivered
  exact absurd delivered.decodes (by decide +kernel)

end PushpinHttp
