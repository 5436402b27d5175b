import Pushpin.Handler.HttpSessionHistory

namespace PushpinHttpSession
open PushpinHandler

def processedOn (channel : String) : List Happening → List Item
  | [] => []
  | .process item :: happenings =>
    if item.channel = channel then item :: processedOn channel happenings
      else processedOn channel happenings
  | _ :: happenings => processedOn channel happenings

/-- Each item follows the one before it, and the first one the id. An id that is
    missing compares as an empty one. -/
def Chain : String → List Item → Prop
  | _, [] => True
  | last, item :: items => item.prevId.getD "" = last ∧ Chain (item.id.getD "") items

def lastId : String → List Item → String
  | last, [] => last
  | _, item :: items => lastId (item.id.getD "") items

def Happening.isHold : Happening → Bool
  | .hold .. => true
  | _ => false

def Identified (channel : String) (item : Item) : Prop := item.channel = channel →
    item.id.isSome = true

namespace Track

/-- One happening other than a hold, on a channel that is followed: an item of the
    channel is in its turn and moves the position to its id, and nothing else moves
    it. A channel is only given up by a session that leaves. -/
theorem follows_one {channel last : String} {t : Track} {happening : Happening}
    (followed : t.position = some last) (listed : t.over_ = false → t.listed = true)
    (admits : t.Admits channel happening) (no_hold : happening.isHold = false) :
    ((t.after channel happening).over_ = false → (t.after channel happening).listed = true) ∧
    ((∃ item, happening = .process item ∧ item.channel = channel ∧ item.prevId.getD "" = last ∧
        (t.after channel happening).position = item.id) ∨
      processedOn channel [happening] = [] ∧ (t.after channel happening).position = some last) := by
  cases happening with
  | start subscribed =>
    have old : channel ∉ subscribed := by
      intro mem
      exact absurd ((listed admits.1).symm.trans (admits.2 mem)) (by simp)
    simp only [after, if_neg old]
    exact ⟨listed, .inr ⟨rfl, followed⟩⟩
  | hold unsubscribed subscribed prevIds => cases no_hold
  | process item =>
    by_cases same : item.channel = channel
    · obtain ⟨-, turn⟩ := admits same
      have moving : item.channel = channel ∧ t.position.isSome = true :=
        ⟨same, by rw [followed]; rfl⟩
      simp only [after, if_pos moving]
      refine ⟨listed, .inl ⟨item, rfl, same, ?_, rfl⟩⟩
      simpa [awaits, followed, eq_comm] using turn
    · have still : ¬ (item.channel = channel ∧ t.position.isSome = true) := fun both => same both.1
      simp only [after, if_neg still]
      exact ⟨listed, .inr ⟨by simp [processedOn, same], followed⟩⟩
  | breakOff item written => exact ⟨listed, .inr ⟨rfl, followed⟩⟩
  | fetch lasts => exact ⟨listed, .inr ⟨rfl, followed⟩⟩
  | leave unsubscribed =>
    refine ⟨fun gone => ?_, .inr ⟨rfl, followed⟩⟩
    cases gone
  | finish => exact ⟨listed, .inr ⟨rfl, followed⟩⟩

theorem follows_all {channel last : String} {t : Track} {happenings : List Happening}
    (followed : t.position = some last) (listed : t.over_ = false → t.listed = true)
    (admits : t.AdmitsAll channel happenings)
    (no_hold : ∀ happening ∈ happenings, happening.isHold = false)
    (identified : ∀ item, .process item ∈ happenings → Identified channel item) :
    Chain last (processedOn channel happenings) ∧
    (t.afterAll channel happenings).position = some (lastId last (processedOn channel happenings)) ∧
    ((t.afterAll channel happenings).over_ = false →
    (t.afterAll channel happenings).listed = true) := by
  induction happenings generalizing t last with
  | nil => exact ⟨trivial, followed, listed⟩
  | cons happening happenings ih =>
    obtain ⟨listed', step⟩ :=
      follows_one followed listed admits.1 (no_hold happening List.mem_cons_self)
    have later : ∀ item, .process item ∈ happenings → Identified channel item :=
      fun item mem => identified item (List.mem_cons_of_mem _ mem)
    have no_hold' : ∀ happening ∈ happenings, happening.isHold = false :=
      fun happening mem => no_hold happening (List.mem_cons_of_mem _ mem)
    rcases step with ⟨item, rfl, same, turn, moved⟩ | ⟨none_here, still⟩
    · obtain ⟨id, has⟩ := Option.isSome_iff_exists.mp (identified item List.mem_cons_self same)
      obtain ⟨chain, position, over_⟩ := ih (moved.trans has) listed' admits.2 no_hold' later
      simp only [processedOn, if_pos same, Chain, lastId, has, Option.getD_some]
      exact ⟨⟨turn, chain⟩, position, over_⟩
    · obtain ⟨chain, position, over_⟩ := ih still listed' admits.2 no_hold' later
      have skipped :
          processedOn channel (happening :: happenings) = processedOn channel happenings := by
        cases happening with
        | process item =>
          have other : item.channel ≠ channel := by
            intro same
            simp [processedOn, same] at none_here
          simp only [processedOn, if_neg other]
        | _ => rfl
      rw [skipped]
      exact ⟨chain, position, over_⟩

end Track

namespace Session
variable (lib : Libraries) {s : Session}

def heldFor (s : Session) (channel : String) : Option (Option String) :=
  heldId channel (s.wanted.map fun entry => (entry.1, entry.2.prevId))

theorem heldFor_specified {channel id : String} (held : s.heldFor channel = some (some id)) :
    ∃ c ∈ s.instruct.channels, c.prevId.isSome = true := by
  obtain ⟨entry, found, is⟩ := Option.map_eq_some_iff.mp held
  have mem := List.mem_reverse.mp (List.mem_of_find?_eq_some found)
  obtain ⟨wanted, mem', rfl⟩ := List.mem_map.mp mem
  obtain ⟨c, given, rfl⟩ := List.mem_map.mp mem'
  exact ⟨c, given, by rw [show c.prevId = some id from is]; rfl⟩

/-- A link is asked for with the name that the history has given the channel, and with
    the id of the last item. -/
def AsksFor (channelPrefix channel : String) (history : List Happening) (id : String)
    (lasts : List (String × String)) : Prop :=
  ∃ name, Calls channelPrefix channel (history.foldl (Happening.implies channel) false) name ∧
    (lasts.filter (·.1 = channel)).map Prod.snd = [name ++ "; last-id=" ++ id]

def startTrack (channelPrefix : String) : Track := ⟨channelPrefix, false, false, none, false⟩

theorem history_follows {channelPrefix channel id : String} {before after : List Happening}
    {unsubscribed subscribed : List String} {prevIds : List (String × Option String)}
    (admits : (startTrack channelPrefix).AdmitsAll channel
      (before ++ .hold unsubscribed subscribed prevIds :: after))
    (identified : ∀ item, .process item ∈ after → Identified channel item)
    (held : heldId channel prevIds = some (some id))
    (no_hold : ∀ happening ∈ after, happening.isHold = false) :
    Chain id (processedOn channel after) ∧
    ∀ lasts later, (startTrack channelPrefix).AdmitsAll channel
        (before ++ .hold unsubscribed subscribed prevIds :: (after ++ .fetch lasts :: later)) →
      AsksFor channelPrefix channel (before ++ .hold unsubscribed subscribed prevIds :: after)
        (lastId id (processedOn channel after)) lasts := by
  obtain ⟨-, holds, admits'⟩ := Track.admitsAll_append.mp admits
  have followed : (((startTrack channelPrefix).afterAll channel before).after channel
      (.hold unsubscribed subscribed prevIds)).position = some id := by
    simp only [Track.after, held, Option.getD_some]
  have listed := holds (by rw [held]; rfl)
  obtain ⟨chain, position, over_⟩ :=
    Track.follows_all followed (fun _ => listed) admits' no_hold identified
  refine ⟨chain, fun lasts later whole => ?_⟩
  obtain ⟨-, -, rest⟩ := Track.admitsAll_append.mp whole
  obtain ⟨-, ⟨running, named⟩, -⟩ := Track.admitsAll_append.mp rest
  obtain ⟨name, calls, lasts_are⟩ := named (over_ running)
  refine ⟨name, ?_, by rw [lasts_are, position]; rfl⟩
  obtain ⟨samePrefix, implied⟩ := Track.afterAll_calls channel (startTrack channelPrefix)
    (before ++ .hold unsubscribed subscribed prevIds :: after)
  rw [Track.afterAll_append] at samePrefix implied
  change Calls (startTrack channelPrefix).channelPrefix channel
    (List.foldl _ (startTrack channelPrefix).implied _) name
  rw [← samePrefix, ← implied]
  exact calls

theorem new_at (channel : String) (adata : AcceptData) (instruct : Instruct)
    (connectionSubscriptionMax : Nat) (outZhttp : Bool) (currentUri nextUri goneUri : String)
    (answers : Answers) :
    At channel (startTrack adata.channelPrefix)
      (new adata instruct connectionSubscriptionMax outZhttp currentUri nextUri goneUri
      answers) := by
  refine ⟨?_, ?_, rfl, rfl, ?_⟩
  · simp [startTrack, new, channel?]
  · intro c found
    simp [new, channel?] at found
  · intro c found
    simp [new, channel?] at found

/-- In every run in which each item published on a channel has an id, the items
    processed on the channel after a hold that gave it an id form a chain from that
    id, and the next link is asked for with the channel's own name and the id of the
    last one. An item that
    breaks off in a stream clears the queue, is followed by no output, and has an
    update scheduled. -/
theorem held_items_form_chain (adata : AcceptData) (instruct : Instruct)
    (connectionSubscriptionMax : Nat) (outZhttp : Bool) (currentUri nextUri goneUri : String)
    (answers : Answers)
    (events : List (SessionEvent × Answers))
    (reaching : Runs.along (stepped lib) reaches
      (new adata instruct connectionSubscriptionMax outZhttp currentUri nextUri goneUri answers)
      events = true)
    (channel : String) (identified : ∀ event ∈ events, event.1.Publishes (Identified channel)) :
    (∀ s, Runs.run (stepped lib)
        (new adata instruct connectionSubscriptionMax outZhttp currentUri nextUri goneUri answers)
        events = some s →
      ∀ before unsubscribed subscribed prevIds after id,
        heldId channel prevIds = some (some id) → (∀ happening ∈ after, happening.isHold = false) →
        (s.history = before ++ .hold unsubscribed subscribed prevIds :: after →
          Chain id (processedOn channel after)) ∧
        ∀ lasts later, s.history = before ++ .hold unsubscribed subscribed prevIds ::
          (after ++ .fetch lasts :: later) →
          AsksFor adata.channelPrefix channel (before ++ .hold unsubscribed subscribed prevIds ::
            after) (lastId id (processedOn channel after)) lasts) ∧
    (∀ front event rest, events = front ++ event :: rest → ∀ s s',
      Runs.run (stepped lib)
        (new adata instruct connectionSubscriptionMax outZhttp currentUri nextUri goneUri answers)
        front = some s →
      stepped lib s event = some s' →
      ∀ item written, .breakOff item written ∈ s'.history.drop s.history.length →
        item.channel = channel →
        s'.instruct.holdMode = .streamHold → ∀ id, s'.heldFor channel = some (some id) →
        s'.publishQueue = [] ∧ s'.written.length = written ∧ s'.Scheduled) := by
  have phase := new_phase (I := Identified channel) adata instruct connectionSubscriptionMax
    outZhttp currentUri nextUri goneUri answers
  have begins := new_at channel adata instruct connectionSubscriptionMax outZhttp currentUri nextUri
    goneUri answers
  refine ⟨?_, ?_⟩
  · intro s ran before unsubscribed subscribed prevIds after id held no_hold
    obtain ⟨-, new, logs⟩ := run_phase lib phase identified reaching ran
    have whole : s.history = new := logs.history
    have admits := (logs.tracks channel (startTrack adata.channelPrefix) begins).1
    refine ⟨fun split => ?_, fun lasts later split => ?_⟩
    · rw [← whole, split] at admits
      refine (history_follows admits (fun item mem => logs.drawn item ?_) held no_hold).1
      rw [← whole, split]
      exact List.mem_append_right _ (List.mem_cons_of_mem _ mem)
    · rw [← whole, split] at admits
      have shorter : (startTrack adata.channelPrefix).AdmitsAll channel
          (before ++ .hold unsubscribed subscribed prevIds :: after) := by
        rw [show before ++ .hold unsubscribed subscribed prevIds ::
          (after ++ .fetch lasts :: later) =
          (before ++ .hold unsubscribed subscribed prevIds :: after) ++ .fetch lasts :: later by
            simp] at admits
        exact (Track.admitsAll_append.mp admits).1
      refine (history_follows shorter (fun item mem => logs.drawn item ?_) held no_hold).2 lasts
        later admits
      rw [← whole, split]
      exact List.mem_append_right _ (List.mem_cons_of_mem _ (List.mem_append_left _ mem))
  · intro front event rest split s s' ran took item written there _ stream id held
    rw [split] at reaching identified
    have can := reaching
    rw [Runs.along_append ran, Bool.and_eq_true] at can
    obtain ⟨phase', -⟩ := run_phase lib phase
      (fun event mem => identified event (List.mem_append_left _ mem)) can.1 ran
    have next := can.2
    simp only [Runs.along, Bool.and_eq_true] at next
    obtain ⟨-, new, logs, recovers⟩ := step_phase lib phase'
      (identified event (List.mem_append_right _ List.mem_cons_self)) next.1 took
    rw [logs.history, List.drop_left] at there
    obtain ⟨queue, outputs, link, scheduled⟩ := recovers item written there
    exact ⟨queue, outputs, scheduled stream (link stream (heldFor_specified held))⟩

def exampleStreamAnswers : Answers :=
  ⟨[8, 8], [some (.passed .send [1])], [], 200, [], false, .inr "", []⟩

def exampleStream : Session :=
  new ⟨false, false, [], false, "", [], false⟩
    ⟨.streamHold, [⟨"c", some "p", []⟩], 30, .noKeepAlive, [], -1,
      ⟨200, [], [], []⟩, "/next", ""⟩ 8 true "/" "/next" ""
    exampleStreamAnswers

def streamItem (id prevId : Option String) : Item :=
  ⟨"c", id, prevId, ⟨.httpStream, .send, 200, [], [], [], none, none⟩⟩

def streamEvents (items : List Item) : List (SessionEvent × Answers) :=
  (.start, exampleStreamAnswers) :: items.map fun item => (.publish item [], exampleStreamAnswers)

theorem example_items_form_chain :
    ∃ s, Runs.run (stepped exampleLibraries) exampleStream
        (streamEvents [streamItem (some "q") (some "p"), streamItem (some "r") (some "q")]) =
        some s ∧
      s.history = [.start []] ++ .hold [] ["c"] [("c", some "p")] ::
        [.process (streamItem (some "q") (some "p")), .process (streamItem (some "r") (some "q"))] ∧
      Chain "p" (processedOn "c"
        [.process (streamItem (some "q") (some "p")),
        .process (streamItem (some "r") (some "q"))]) := by
  have chains := held_items_form_chain exampleLibraries exampleStream.adata exampleStream.instruct 8
    true "/" "/next" ""
    exampleStreamAnswers
      (streamEvents [streamItem (some "q") (some "p"), streamItem (some "r") (some "q")])
    (by decide +kernel) "c" (by
      intro event mem item exposeHeaders published _
      simp only [streamEvents, List.map_cons, List.map_nil, List.mem_cons, List.not_mem_nil,
        or_false] at mem
      rcases mem with rfl | rfl | rfl <;> cases published <;> rfl)
  refine ⟨_, rfl, by decide +kernel, ?_⟩
  exact (chains.1 _ rfl [.start []] [] ["c"] [("c", some "p")] _ "p" (by decide) (by decide)).1
    (by decide +kernel)

/-- The first item follows the hold and has no id. After it any item is taken. -/
theorem item_without_id_ends_following :
    ∃ s, Runs.along (stepped exampleLibraries) reaches exampleStream
        (streamEvents [streamItem none (some "p"), streamItem (some "b") (some "z")]) = true ∧
      Runs.run (stepped exampleLibraries) exampleStream
        (streamEvents [streamItem none (some "p"), streamItem (some "b") (some "z")]) = some s ∧
      ∃ before unsubscribed subscribed prevIds after,
        s.history = before ++ .hold unsubscribed subscribed prevIds :: after ∧
        heldId "c" prevIds = some (some "p") ∧ (∀ happening ∈ after, happening.isHold = false) ∧
        ¬ Chain "p" (processedOn "c" after) := by
  refine ⟨_, by decide +kernel, rfl, [.start []], [], ["c"], [("c", some "p")],
    [.process (streamItem none (some "p")), .process (streamItem (some "b") (some "z"))], by
      decide +kernel, by decide,
    by decide, ?_⟩
  intro chain
  exact absurd chain.2.1 (by decide)

end Session
end PushpinHttpSession
