import Pushpin.Proxy.WebSocketOverHttp

namespace PushpinWebSocketOverHttp
open PushpinVariant (Bytes)
open PushpinHttpHeaders (ascii)
open Budgets

def size (message : List Frame) : Nat := (content message).length

def Event.size (e : Event) : Nat := (e.content.getD []).length

def Event.isMessage (e : Event) : Bool :=
  e.type = ascii "TEXT" || e.type = ascii "BINARY" || e.type = ascii "PING" || e.type = ascii "PONG"

theorem toEvent_size (message : List Frame) : (toEvent message).size = size message := by
  unfold toEvent Event.size size
  split
  · rename_i empty
    rw [empty]
    rfl
  · rfl

theorem messages_ne_nil {frames : List Frame} {message : List Frame}
    (member : message ∈ messages frames) : message ≠ [] := by
  induction frames generalizing message with
  | nil => cases member
  | cons f frames ih =>
    rw [messages] at member
    split at member
    · split at member
      · cases member
      · rename_i first rest split_
        rcases List.mem_cons.mp member with rfl | later
        · simp
        · exact ih (by rw [split_]; exact List.mem_cons_of_mem first later)
    · rcases List.mem_cons.mp member with rfl | later
      · simp
      · exact ih later

theorem toEvent_isMessage {message : List Frame} (some_ : message ≠ [])
    (typed : wellTyped message = true) : (toEvent message).isMessage = true := by
  cases message with
  | nil => exact absurd rfl some_
  | cons f rest =>
    obtain ⟨type, data, more⟩ := f
    cases type with
    | continuation => cases typed
    | _ => rfl

theorem eventsFrom_spec {eventsMax contentMax : Int} {rest done : List (List Frame)}
    {pos frames contentSize : Nat} {events : List Event}
    (within : ∀ i < done.length, GoesOn eventsMax contentMax ((done ++ rest).map size) i)
    (typed : ∀ m ∈ done, wellTyped m = true)
    (ran : eventsFrom eventsMax contentMax rest (done.map toEvent) pos (done.map size).sum =
      some (events, frames, contentSize)) :
    ∃ n, Taken eventsMax contentMax ((done ++ rest).map size) n ∧ events =
      ((done ++ rest).take n).map toEvent ∧ ∀ m ∈ (done ++ rest).take n, wellTyped m = true := by
  induction rest generalizing done pos with
  | nil =>
    cases ran
    rw [List.append_nil] at within ⊢
    refine ⟨done.length, ⟨by simp, within, Or.inl (by simp)⟩, ?_, ?_⟩
    · rw [List.take_length]
    · rwa [List.take_length]
  | cons message rest ih =>
    have here : GoesOn eventsMax contentMax ((done ++ message :: rest).map size) done.length ↔
        (eventsMax ≤ 0 ∨ (done.map toEvent).length < eventsMax) ∧
          (contentMax ≤ 0 ∨ (done.map size).sum < contentMax) := by
      have sum : total ((done ++ message :: rest).map size) done.length = (done.map size).sum := by
        rw [List.map_append, List.map_cons, ← total_append (done.map size) (size message)
          (rest.map size), List.length_map]
      rw [GoesOn, sum, List.length_map]
    rw [eventsFrom] at ran
    split at ran
    · rename_i allowed
      split at ran
      · rename_i isTyped
        have more : done ++ message :: rest = (done ++ [message]) ++ rest := by simp
        rw [more] at within here ⊢
        refine @ih (done ++ [message]) (pos + message.length) ?_ ?_ ?_
        · intro i below
          rw [List.length_append, List.length_singleton] at below
          rcases Nat.lt_succ_iff_lt_or_eq.mp below with earlier | rfl
          · exact within i earlier
          · exact here.mpr allowed
        · intro m member
          rcases List.mem_append.mp member with old | new
          · exact typed m old
          · rw [List.mem_singleton.mp new]
            exact isTyped
        · rw [List.map_append, List.map_append, List.sum_append]
          simpa [size] using ran
      · cases ran
    · rename_i stopped
      cases ran
      refine ⟨done.length, ⟨by simp, within, Or.inr fun goesOn => stopped (here.mp goesOn)⟩, ?_, ?_⟩
      · rw [List.take_left]
      · rwa [List.take_left]

theorem framesToEvents_spec {frames : List Frame} {eventsMax contentMax : Int} {events : List Event}
    {framesRepresented contentRepresented : Nat}
    (ran : framesToEvents frames eventsMax contentMax = some (events, framesRepresented,
    contentRepresented)) :
    ∃ n, Taken eventsMax contentMax ((messages frames).map size) n ∧
      events = ((messages frames).take n).map toEvent ∧ ∀ e ∈ events, e.isMessage = true := by
  obtain ⟨n, taken, same, typed⟩ :=
    @eventsFrom_spec eventsMax contentMax (messages frames) [] 0 _ _ events (by simp) (by simp) ran
  refine ⟨n, taken, same, ?_⟩
  rw [same]
  intro e member
  obtain ⟨message, inside, rfl⟩ := List.mem_map.mp member
  exact toEvent_isMessage (messages_ne_nil (List.mem_of_mem_take inside)) (typed message inside)

namespace Private

def sendsFrames (s : Private) : Prop := s.state ≠ .connecting ∧
    (s.disconnecting && !s.disconnectSent) = false

instance (s : Private) : Decidable s.sendsFrames := inferInstanceAs (Decidable (_ ∧ _))

def sizes (s : Private) : List Nat := (messages s.outFrames).map size

theorem withClose_events (s : Private) (events : List Event) :
    (s.withClose events).2 = events ∨
    ∃ content, (s.withClose events).2 = events ++ [⟨ascii "CLOSE", content⟩] ∧
      (s.maxEvents ≤ 0 ∨ events.length < s.maxEvents) := by
  unfold withClose
  split
  · rename_i closes
    split
    · exact Or.inr ⟨_, rfl, closes.2⟩
    · exact Or.inr ⟨_, rfl, closes.2⟩
  · exact Or.inl rfl

structure Sent (s : Private) (events : List Event) (n : Nat) : Prop where
  taken : Taken BUFFER_SIZE s.maxEvents s.sizes n
  split : ∃ closes, events = ((messages s.outFrames).take n).map toEvent ++ closes ∧
    (closes = [] ∨ ∃ content, closes = [⟨ascii "CLOSE", content⟩] ∧
      (s.maxEvents ≤ 0 ∨ n < s.maxEvents))
  typed : ∀ e ∈ ((messages s.outFrames).take n).map toEvent, e.isMessage = true

theorem sendFrames_spec {s : Private} {events : List Event} (built : s.sendFrames.2 = some events) :
    ∃ n, Sent s events n := by
  unfold sendFrames at built
  split at built
  · cases built
  · rename_i sent frames contentSize ran
    obtain ⟨n, taken, same, typed⟩ := framesToEvents_spec ran
    have count : sent.length = n := by
      have there := taken.there
      rw [List.length_map] at there
      rw [same, List.length_map, List.length_take, Nat.min_eq_left there]
    have built : (withClose { s with
        reqFrames := frames, reqContentSize := contentSize, reqMaxed :=
          frames < s.outFrames.length } sent).2 = events := Option.some.inj built
    refine ⟨n, taken, ?_, same ▸ typed⟩
    rw [← same, ← built, ← count]
    rcases withClose_events { s with
        reqFrames := frames, reqContentSize := contentSize, reqMaxed :=
          frames < s.outFrames.length } sent with
      plain | ⟨content, closed, room⟩
    · exact ⟨[], by rw [plain, List.append_nil], Or.inl rfl⟩
    · exact ⟨_, closed, Or.inr ⟨content, rfl, room⟩⟩

theorem update_spec {s : Private} {events : List Event} (built : s.update.2 = some events) :
    (¬ s.sendsFrames ∧ ∃ type, events = [⟨type, none⟩] ∧ (⟨type, none⟩ : Event).isMessage = false) ∨
    (s.sendsFrames ∧ ∃ n, Sent s events n) := by
  unfold update at built
  split at built
  · cases built
  · dsimp only at built
    split at built
    · cases built
    · split at built
      · rename_i connecting
        cases built
        exact Or.inl ⟨fun sends => sends.1 connecting, _, rfl, by decide⟩
      · rename_i notConnecting
        split at built
        · rename_i disconnects
          cases built
          exact Or.inl ⟨fun sends => absurd (sends.2.symm.trans disconnects) (by simp), _,
            rfl, by decide⟩
        · rename_i stays
          obtain ⟨n, sent⟩ := sendFrames_spec built
          exact Or.inr ⟨⟨notConnecting, Bool.eq_false_iff.mpr stays⟩, n, sent.taken, sent.split,
            sent.typed⟩

end Private

/-- What the limits are for. A request for frames without a limit on events leaves
    a message out for its content only. -/
structure KeepsLimits (s : Private) (events : List Event) : Prop where
  count : 0 < s.maxEvents → events.length ≤ s.maxEvents
  content : ∀ before e after, events = before ++ e :: after → e.isMessage = true →
    (before.map Event.size).sum < BUFFER_SIZE
  unlimited : s.sendsFrames → s.maxEvents ≤ 0 →
    (events.filter Event.isMessage).length = s.sizes.length ∨
      BUFFER_SIZE ≤ ((events.filter Event.isMessage).map Event.size).sum

/-- The messages for which the limits, passed in each other's place, do what they are for:
    not more messages than events are allowed, or enough content in the first of them;
    content up to the buffer size before each message that is taken; and not more messages
    than bytes in the buffer, if the number of events is unlimited. -/
structure LimitsFit (maxEvents : Int) (sizes : List Nat) : Prop where
  count : 0 < maxEvents → (sizes.length : Int) ≤ maxEvents ∨ (BUFFER_SIZE : Int) ≤ maxEvents ∨
    maxEvents ≤ total sizes maxEvents.toNat
  content : ∀ i < sizes.length, i < BUFFER_SIZE → (maxEvents ≤ 0 ∨ total sizes i < maxEvents) →
    total sizes i < BUFFER_SIZE
  unlimited : maxEvents ≤ 0 → sizes.length ≤ BUFFER_SIZE ∨ BUFFER_SIZE ≤ total sizes BUFFER_SIZE

namespace Private
section Sent
variable {s : Private} {events : List Event} {n : Nat} (sent : Sent s events n)
include sent

theorem Sent.there : n ≤ (messages s.outFrames).length := by
  have there := sent.taken.there
  rwa [sizes, List.length_map] at there

theorem Sent.sum_take {i : Nat} (within : i ≤ n) :
    ((events.take i).map Event.size).sum = total s.sizes i := by
  obtain ⟨closes, same, -⟩ := sent.split
  have front : events.take i = ((messages s.outFrames).take i).map toEvent := by
    have long : i ≤ (((messages s.outFrames).take n).map toEvent).length := by
      rw [List.length_map, List.length_take, Nat.min_eq_left sent.there]
      exact within
    rw [same, List.take_append_of_le_length long, ← List.map_take, List.take_take,
      Nat.min_eq_left within]
  have each : (Event.size ∘ toEvent) = size := funext toEvent_size
  rw [front, List.map_map, each, total, sizes, List.map_take]

theorem Sent.length_iff (limited : 0 < s.maxEvents) : (events.length : Int) ≤ s.maxEvents ↔
    (n : Int) ≤ s.maxEvents := by
  obtain ⟨closes, same, kind⟩ := sent.split
  have length : events.length = n + closes.length := by
    rw [same, List.length_append, List.length_map, List.length_take, Nat.min_eq_left sent.there]
  rcases kind with rfl | ⟨content, rfl, room⟩
  · rw [length]
    rfl
  · rw [length, List.length_singleton]
    omega

theorem Sent.filter_messages : events.filter Event.isMessage = events.take n := by
  obtain ⟨closes, same, kind⟩ := sent.split
  have length : (((messages s.outFrames).take n).map toEvent).length = n := by
    rw [List.length_map, List.length_take, Nat.min_eq_left sent.there]
  have none_ : closes.filter Event.isMessage = [] := by
    rcases kind with rfl | ⟨content, rfl, -⟩ <;> rfl
  rw [same, List.filter_append, none_, List.append_nil, List.filter_eq_self.mpr sent.typed]
  exact (List.take_left' length).symm

theorem Sent.length_take : (events.take n).length = n := by
  obtain ⟨closes, same, -⟩ := sent.split
  have length : (((messages s.outFrames).take n).map toEvent).length = n := by
    rw [List.length_map, List.length_take, Nat.min_eq_left sent.there]
  rw [same, List.take_left' length, length]

theorem Sent.lt_of_message {before after : List Event} {e : Event}
    (split : events = before ++ e :: after) (message : e.isMessage = true) : before.length < n := by
  obtain ⟨closes, same, kind⟩ := sent.split
  by_contra notBelow
  have length : (((messages s.outFrames).take n).map toEvent).length = n := by
    rw [List.length_map, List.length_take, Nat.min_eq_left sent.there]
  have inCloses : e ∈ closes := by
    have dropped : closes = (before ++ e :: after).drop n := by
      rw [← split, same, List.drop_left' length]
    rw [dropped, List.drop_append_of_le_length (by omega)]
    simp
  rcases kind with rfl | ⟨content, rfl, -⟩
  · cases inCloses
  · rw [List.mem_singleton.mp inCloses] at message
    cases message

theorem Sent.content_iff :
    (∀ before e after, events = before ++ e :: after → e.isMessage = true →
      (before.map Event.size).sum < BUFFER_SIZE) ↔ ∀ i < n, total s.sizes i < BUFFER_SIZE := by
  constructor
  · intro bounded i below
    have long : i < (events.take n).length := by
      rw [sent.length_take]
      exact below
    have inside : i < events.length :=
      lt_of_lt_of_le long (by rw [List.length_take]; exact Nat.min_le_right _ _)
    have message : events[i].isMessage = true := by
      have member : events[i] ∈ events.filter Event.isMessage := by
        rw [sent.filter_messages]
        exact List.mem_take_iff_getElem.mpr ⟨i, by rw [List.length_take] at long; exact long, rfl⟩
      exact (List.mem_filter.mp member).2
    have split : events = events.take i ++ events[i] :: events.drop (i + 1) := by
      rw [← List.drop_eq_getElem_cons inside, List.take_append_drop]
    rw [← sent.sum_take (Nat.le_of_lt below)]
    exact bounded _ _ _ split message
  · intro bounded before e after split message
    have below := sent.lt_of_message split message
    have front : events.take before.length = before := by rw [split, List.take_left]
    have sum := sent.sum_take (Nat.le_of_lt below)
    rw [front] at sum
    rw [sum]
    exact bounded before.length below

end Sent
end Private

theorem keepsLimits_of_single {s : Private} {type : Bytes} (other : ¬ s.sendsFrames)
    (noMessage : (⟨type, none⟩ : Event).isMessage = false) : KeepsLimits s [⟨type, none⟩] := by
  refine ⟨fun limited => by rw [List.length_singleton]; omega, ?_, fun sends => absurd sends other⟩
  intro before e after split message
  cases before with
  | nil =>
    rw [← (List.cons.inj split).1, noMessage] at message
    cases message
  | cons first before => exact absurd (List.cons.inj split).2 (by simp)

theorem keepsLimits_of_sent {s : Private} {events : List Event} {n : Nat} (sends : s.sendsFrames)
    (sent : Private.Sent s events n) : KeepsLimits s events ↔ LimitsFit s.maxEvents s.sizes := by
  have order := sent.taken.lt_iff
  have all : (events.filter Event.isMessage).length = n := by
    rw [sent.filter_messages, sent.length_take]
  have content : ((events.filter Event.isMessage).map Event.size).sum = total s.sizes n := by
    rw [sent.filter_messages, sent.sum_take (Nat.le_refl n)]
  have there := sent.taken.there
  have positive : (0 : Int) < BUFFER_SIZE := by decide
  constructor
  · intro keeps
    constructor
    · intro limited
      have few := (sent.length_iff limited).mp (keeps.count limited)
      by_contra exceeds
      obtain ⟨many, small, light⟩ := not_or.mp exceeds |>.imp_right not_or.mp
      have taken := (order s.maxEvents.toNat).mpr ⟨by omega, Or.inr (by omega), Or.inr (by omega)⟩
      omega
    · intro i there below allowed
      exact sent.content_iff.mp keeps.content i ((order i).mpr ⟨there, Or.inr (by omega), allowed⟩)
    · intro unlimited
      rcases keeps.unlimited sends unlimited with whole | full
      · by_cases few : s.sizes.length ≤ BUFFER_SIZE
        · exact Or.inl few
        · have beyond := (order BUFFER_SIZE).mp (by omega)
          exact absurd (beyond.2.1.resolve_left (by omega)) (by omega)
      · rw [content] at full
        have bound : n ≤ BUFFER_SIZE := by
          by_contra above
          have beyond := (order BUFFER_SIZE).mp (by omega)
          exact absurd (beyond.2.1.resolve_left (by omega)) (by omega)
        exact Or.inr (Nat.le_trans full (total_mono s.sizes bound))
  · intro fit
    constructor
    · intro limited
      rw [sent.length_iff limited]
      by_contra above
      obtain ⟨within, counts, sums⟩ := (order s.maxEvents.toNat).mp (by omega)
      have light := sums.resolve_left (by omega)
      rcases fit.count limited with few | large | heavy
      · omega
      · have below := counts.resolve_left (by omega)
        omega
      · omega
    · rw [sent.content_iff]
      intro i below
      obtain ⟨within, counts, sums⟩ := (order i).mp below
      have small := counts.resolve_left (by omega)
      exact fit.content i within (by omega) sums
    · intro _ unlimited
      rw [all, content]
      rcases fit.unlimited unlimited with few | full
      · refine Or.inl (by_contra fun fewer => ?_)
        have next := (order n).not.mp (Nat.lt_irrefl n)
        exact next ⟨by omega, Or.inr (by omega), Or.inl unlimited⟩
      · by_cases whole : n = s.sizes.length
        · exact Or.inl whole
        · refine Or.inr (Nat.le_trans full (total_mono s.sizes ?_))
          by_contra below
          exact (order n).not.mp (Nat.lt_irrefl n) ⟨by omega, Or.inr (by omega), Or.inl unlimited⟩

/-- A request keeps the limits exactly when it is not for frames, or the messages fit
    the limits as they are passed. -/
theorem request_keeps_limits_iff {s : Private} {events : List Event}
    (built : s.update.2 = some events) :
    KeepsLimits s events ↔ (s.sendsFrames → LimitsFit s.maxEvents s.sizes) := by
  rcases Private.update_spec built with ⟨other, type, rfl, noMessage⟩ | ⟨sends, n, sent⟩
  · exact iff_of_true (keepsLimits_of_single other noMessage) fun sends => absurd sends other
  · rw [keepsLimits_of_sent sends sent]
    exact ⟨fun fit _ => fit, fun fit => fit sends⟩

def textFrame (text : String) : Frame := ⟨.text, ascii text, false⟩

def oneEvent (frames : List Frame) : Private where
  state := .connected
  outFrames := frames
  outContentSize := (frames.map fun f => f.data.length).sum
  maxEvents := 1

theorem one_event_of_texts :
    (oneEvent [textFrame "a", textFrame "b"]).update.2 = some [⟨ascii "TEXT", some (ascii "a")⟩] ∧
    KeepsLimits (oneEvent [textFrame "a", textFrame "b"]) [⟨ascii "TEXT", some (ascii "a")⟩] := by
  have built : (oneEvent [textFrame "a", textFrame "b"]).update.2 =
      some [⟨ascii "TEXT", some (ascii "a")⟩] := by
    decide +kernel
  refine ⟨built, (request_keeps_limits_iff built).mpr fun _ =>
    ⟨fun _ => ?_, fun i there _ _ => ?_, fun unlimited => ?_⟩⟩
  · exact Or.inr (Or.inr (by decide))
  · have both : ∀ i < 2, total [1, 1] i < BUFFER_SIZE := by decide
    exact both i there
  · exact absurd unlimited (by decide)

/-- An empty ping does not count: two events go out where one is allowed. -/
theorem empty_ping_exceeds_events :
    (oneEvent [⟨.ping, [], false⟩, textFrame "a"]).update.2 =
      some [⟨ascii "PING", none⟩, ⟨ascii "TEXT", some (ascii "a")⟩] ∧
    ¬ KeepsLimits (oneEvent [⟨.ping, [], false⟩, textFrame "a"])
      [⟨ascii "PING", none⟩, ⟨ascii "TEXT", some (ascii "a")⟩] := by
  refine ⟨by decide +kernel, fun keeps => ?_⟩
  exact absurd (keeps.count (by decide)) (by decide)

end PushpinWebSocketOverHttp
