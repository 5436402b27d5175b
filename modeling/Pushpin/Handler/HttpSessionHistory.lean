import Pushpin.Handler.HttpSessionRuns

namespace PushpinHttpSession
open PushpinHandler

structure Track where
  channelPrefix : String
  listed : Bool
  implied : Bool
  position : Option String
  over_ : Bool

def heldId (channel : String) (prevIds : List (String × Option String)) : Option (Option String) :=
  (prevIds.reverse.find? (·.1 = channel)).map Prod.snd

/-- Whether a channel was taken up by the start, as an implicit one, and not by a hold. -/
def Happening.implies (channel : String) (implied : Bool) : Happening → Bool
  | .start subscribed => implied || decide (channel ∈ subscribed)
  | .hold _ subscribed _ => implied && decide (channel ∉ subscribed)
  | _ => implied

/-- The name that a channel goes by. An implicit channel has none but its own, and a
    channel of a hold is known without the prefix. -/
def Calls (channelPrefix channel : String) (implied : Bool) (name : String) : Prop :=
  if implied then name = channel else channelPrefix ++ name = channel

namespace Track

def after (channel : String) (t : Track) : Happening → Track
  | .start subscribed =>
    if channel ∈ subscribed then { t with listed := true, implied := true, position := none } else t
  | .hold unsubscribed subscribed prevIds => { t with
      listed := t.listed && decide (channel ∉ unsubscribed) || decide (channel ∈ subscribed)
      implied := t.implied && decide (channel ∉ subscribed)
      position := (heldId channel prevIds).getD t.position }
  | .process item => if item.channel = channel ∧ t.position.isSome then
      { t with position := item.id } else t
  | .leave unsubscribed =>
      { t with listed := t.listed && decide (channel ∉ unsubscribed), over_ := true }
  | _ => t

def awaits (t : Track) (item : Item) : Bool :=
  t.position.isNone || decide (t.position.getD "" = item.prevId.getD "")

/-- The channels of the start are new, and those of a hold are subscribed to. An item
    is processed in its turn, and an item that breaks off is not the one that the
    channel waits for. A link is asked for with the name and the position of the
    channel, if it has one. A session that has left neither starts nor asks. -/
def Admits (channel : String) (t : Track) : Happening → Prop
  | .start subscribed => t.over_ = false ∧ (channel ∈ subscribed → t.listed = false)
  | .process item => item.channel = channel → t.listed = true ∧ t.awaits item = true
  | .breakOff item _ => item.channel = channel → t.awaits item = false
  | .hold unsubscribed subscribed prevIds => (heldId channel prevIds).isSome →
      (t.after channel (.hold unsubscribed subscribed prevIds)).listed = true
  | .fetch lasts => t.over_ = false ∧
      (t.listed = true → ∃ name, Calls t.channelPrefix channel t.implied name ∧
        (lasts.filter (·.1 = channel)).map Prod.snd =
          (t.position.map fun id => name ++ "; last-id=" ++ id).toList)
  | _ => True

def afterAll (channel : String) (t : Track) (happenings : List Happening) : Track :=
  happenings.foldl (after channel) t

def AdmitsAll (channel : String) : Track → List Happening → Prop
  | _, [] => True
  | t, happening :: happenings => t.Admits channel happening ∧
    AdmitsAll channel (t.after channel happening) happenings

theorem admitsAll_append {channel : String} {t : Track} {xs ys : List Happening} :
    t.AdmitsAll channel (xs ++ ys) ↔ t.AdmitsAll channel xs ∧
      (t.afterAll channel xs).AdmitsAll channel ys := by
  induction xs generalizing t with
  | nil => simp [AdmitsAll, afterAll]
  | cons x xs ih =>
    simp only [List.cons_append, AdmitsAll, ih, and_assoc]
    rfl

theorem after_channelPrefix (channel : String) (t : Track) (happening : Happening) :
    (t.after channel happening).channelPrefix = t.channelPrefix := by
  cases happening <;> simp only [after] <;> split <;> rfl

theorem after_implied (channel : String) (t : Track) (happening : Happening) :
    (t.after channel happening).implied = happening.implies channel t.implied := by
  cases happening with
  | start subscribed =>
    simp only [after, Happening.implies]
    split
    · rename_i mem
      simp [mem]
    · rename_i absent
      simp [absent]
  | process item =>
    simp only [after, Happening.implies]
    split <;> rfl
  | _ => rfl

theorem afterAll_calls (channel : String) (t : Track) (happenings : List Happening) :
    (t.afterAll channel happenings).channelPrefix = t.channelPrefix ∧
      (t.afterAll channel happenings).implied =
        happenings.foldl (Happening.implies channel) t.implied := by
  induction happenings generalizing t with
  | nil => exact ⟨rfl, rfl⟩
  | cons happening happenings ih =>
    obtain ⟨same, implied⟩ := ih (t.after channel happening)
    rw [after_channelPrefix] at same
    rw [after_implied] at implied
    exact ⟨same, implied⟩

theorem afterAll_append (channel : String) (t : Track) (xs ys : List Happening) :
    t.afterAll channel (xs ++ ys) = (t.afterAll channel xs).afterAll channel ys :=
  List.foldl_append

end Track

def SessionEvent.Publishes (I : Item → Prop) (event : SessionEvent) : Prop :=
  ∀ item exposeHeaders, event = .publish item exposeHeaders → I item

namespace Session
open PushpinHttpSession.Core
variable (lib : Libraries) {I : Item → Prop} {s s' s₁ s₂ : Session}

def left (s : Session) : Bool := decide (s.state = .sendingGone) || s.finished

structure At (channel : String) (t : Track) (s : Session) : Prop where
  listed : t.listed = true ↔ (∃ c, s.channel? channel = some c) ∧ s.left = false
  position : ∀ c, s.channel? channel = some c → c.prevId = t.position
  over_ : t.over_ = s.left
  channelPrefix : t.channelPrefix = s.adata.channelPrefix
  called : ∀ c, s.channel? channel = some c → Calls t.channelPrefix channel t.implied c.name

structure Logs (I : Item → Prop) (s s' : Session) (new : List Happening) : Prop where
  history : s'.history = s.history ++ new
  mode : s'.holdMode = s.holdMode
  drawn : ∀ item, .process item ∈ new → I item
  tracks : ∀ channel t, At channel t s → t.AdmitsAll channel new ∧
    At channel (t.afterAll channel new) s'

theorem Logs.trans {new later : List Happening} (first : Logs I s s₁ new)
    (second : Logs I s₁ s₂ later) : Logs I s s₂ (new ++ later) := by
  refine ⟨?_, second.mode.trans first.mode, ?_, ?_⟩
  · rw [second.history, first.history, List.append_assoc]
  · intro item there
    rcases List.mem_append.mp there with early | late
    · exact first.drawn item early
    · exact second.drawn item late
  · intro channel t at_s
    obtain ⟨admits₁, at₁⟩ := first.tracks channel t at_s
    obtain ⟨admits₂, at₂⟩ := second.tracks channel _ at₁
    exact ⟨Track.admitsAll_append.mpr ⟨admits₁, admits₂⟩, by rw [Track.afterAll_append]; exact at₂⟩

structure Unmoved (s s' : Session) : Prop where
  history : s'.history = s.history
  mode : s'.holdMode = s.holdMode
  channels : s'.channels = s.channels
  adata : s'.adata = s.adata
  left : s'.left = s.left

theorem Unmoved.channel? (unmoved : Unmoved s s') (channel : String) :
    s'.channel? channel = s.channel? channel := by
  simp only [Session.channel?, unmoved.channels]

theorem Unmoved.logs (unmoved : Unmoved s s') : Logs I s s' [] := by
  refine ⟨by rw [unmoved.history, List.append_nil], unmoved.mode, by simp, ?_⟩
  intro channel t at_s
  refine ⟨trivial, ⟨?_, ?_, at_s.over_.trans unmoved.left.symm, ?_, ?_⟩⟩
  · rw [unmoved.channel?, unmoved.left]
    exact at_s.listed
  · intro c found
    rw [unmoved.channel?] at found
    exact at_s.position c found
  · rw [unmoved.adata]
    exact at_s.channelPrefix
  · intro c found
    rw [unmoved.channel?] at found
    exact at_s.called c found

def Linked (s : Session) : Prop :=
  s.state = .holding ∨ s.state = .sendingQueue ∨ s.state = .waitingToUpdate →
    s.instruct.holdMode = .streamHold →
    (∃ c ∈ s.instruct.channels, c.prevId.isSome = true) → s.nextUri ≠ ""

def Awaits (s : Session) (item : Item) : Prop :=
  ∃ c, s.channel? item.channel = some c ∧ follows c item = true

def Checked (s : Session) : Prop :=
  ∀ qi, s.messageFilters = some qi → s.state = .sendingQueue → s.Awaits qi.item

structure Member (I : Item → Prop) (s : Session) : Prop where
  here : s.left = false
  queued : ∀ qi ∈ s.publishQueue, I qi.item
  unique : (s.channels.map Prod.fst).Nodup
  linked : s.Linked
  checked : s.Checked

def Moves (I : Item → Prop) (s s' : Session) : Prop :=
  Member I s → Member I s' ∧ ∃ new, Logs I s s' new ∧ ∀ item written, .breakOff item written ∉ new

theorem Moves.trans (first : Moves I s s₁) (second : Moves I s₁ s₂) : Moves I s s₂ := by
  intro member
  obtain ⟨member₁, new₁, logs₁, plain₁⟩ := first member
  obtain ⟨member₂, new₂, logs₂, plain₂⟩ := second member₁
  refine ⟨member₂, new₁ ++ new₂, logs₁.trans logs₂, ?_⟩
  intro item written there
  rcases List.mem_append.mp there with early | late
  · exact plain₁ item written early
  · exact plain₂ item written late

theorem left_false : s.left = false ↔ s.state ≠ .sendingGone ∧ s.finished = false := by
  simp [left]

theorem moves_of (history : s'.history = s.history) (channels : s'.channels = s.channels)
    (adata : s'.adata = s.adata) (finished : s'.finished = s.finished)
    (instruct : s'.instruct = s.instruct)
    (queue : s'.publishQueue ⊆ s.publishQueue) (here : s'.state ≠ .sendingGone)
    (linked : s.Linked → s'.Linked) (checked : s.Checked → s'.Checked) : Moves I s s' := by
  intro member
  have stays : s'.left = false :=
    left_false.mpr ⟨here, finished.trans (left_false.mp member.here).2⟩
  refine ⟨⟨stays, fun qi mem => member.queued qi (queue mem), by rw [channels]; exact member.unique,
    linked member.linked, checked member.checked⟩, [], ?_, ?_⟩
  · exact Unmoved.logs ⟨history, by simp only [holdMode, instruct], channels, adata,
      stays.trans member.here.symm⟩
  · intro item written there
    cases there

theorem linked_elsewhere (holding : s.state ≠ .holding) (sending : s.state ≠ .sendingQueue)
    (waiting : s.state ≠ .waitingToUpdate) : s.Linked := by
  rintro (is | is | is)
  · exact absurd is holding
  · exact absurd is sending
  · exact absurd is waiting

theorem checked_elsewhere (elsewhere : s.state ≠ .sendingQueue) : s.Checked :=
  fun _ _ sending => absurd sending elsewhere

theorem checked_none (none_out : s.messageFilters = none) : s.Checked := by
  intro qi out
  rw [none_out] at out
  cases out

structure Same (s s' : Session) : Prop where
  history : s'.history = s.history
  channels : s'.channels = s.channels
  adata : s'.adata = s.adata
  finished : s'.finished = s.finished
  instruct : s'.instruct = s.instruct
  state : s'.state = s.state
  nextUri : s'.nextUri = s.nextUri
  filters : s'.messageFilters = s.messageFilters
  queue : s'.publishQueue ⊆ s.publishQueue

theorem Same.moves (same : Same s s') : Moves I s s' := by
  intro member
  have here : s'.state ≠ .sendingGone := by
    rw [same.state]
    exact (left_false.mp member.here).1
  refine moves_of same.history same.channels same.adata same.finished same.instruct same.queue here
    ?_ ?_ member
  · intro linked
    simpa only [Linked, same.state, same.instruct, same.nextUri] using linked
  · intro checked
    simpa only [Checked, Awaits, channel?, same.state, same.filters, same.channels] using checked

def depends (s : Session) :=
  (s.history, s.channels, s.adata, s.finished, s.instruct, s.state, s.nextUri, s.messageFilters,
    s.publishQueue)

theorem Same.of (alike : s'.depends = s.depends) : Same s s' := by
  simp only [depends, Prod.mk.injEq] at alike
  obtain ⟨history, channels, adata, finished, instruct, state, nextUri, filters, queue⟩ := alike
  exact ⟨history, channels, adata, finished, instruct, state, nextUri, filters,
    fun _ mem => queue ▸ mem⟩

theorem Moves.aside (alike : s'.depends = s.depends) : Moves I s s' := (Same.of alike).moves

theorem prepareToClose_moves (s : Session) : Moves I s s.prepareToClose :=
  moves_of rfl rfl rfl rfl rfl (List.nil_subset _)
    (by simp [prepareToClose, cancelActivities, cancelAction, cleanupOutReq])
    (fun _ => linked_elsewhere
      (by simp [prepareToClose, cancelActivities, cancelAction, cleanupOutReq])
      (by simp [prepareToClose, cancelActivities, cancelAction, cleanupOutReq])
      (by simp [prepareToClose, cancelActivities, cancelAction, cleanupOutReq]))
    (fun _ => checked_elsewhere
      (by simp [prepareToClose, cancelActivities, cancelAction, cleanupOutReq]))

theorem respond_moves (s : Session) (response : Response) : Moves I s (s.respond lib response) :=
  (prepareToClose_moves s).trans (Moves.aside rfl)

theorem doError_moves (s : Session) (errorMessage : String) :
    Moves I s (doError lib { s with errorMessage }) := by
  refine Moves.trans (@Moves.aside I s { s with errorMessage } rfl) ?_
  unfold doError
  split
  · exact respond_moves lib _ _
  · refine (prepareToClose_moves _).trans ?_
    simp only
    split <;> exact Moves.aside rfl

variable {channels : List (String × Channel)} {channel : String}

theorem filter_of_unique (unique : (channels.map Prod.fst).Nodup) {entry : String × Channel}
    (found : channels.find? (·.1 = channel) = some entry) :
    channels.filter (·.1 = channel) = [entry] := by
  induction channels with
  | nil => cases found
  | cons first rest ih =>
    rw [List.map_cons, List.nodup_cons] at unique
    by_cases named : first.1 = channel
    · rw [List.find?_cons_of_pos (by simpa using named)] at found
      cases found
      have none_behind : rest.filter (·.1 = channel) = [] := by
        refine List.filter_eq_nil_iff.mpr fun other behind same => unique.1 ?_
        rw [named, ← of_decide_eq_true same]
        exact List.mem_map_of_mem behind
      rw [List.filter_cons_of_pos (by simpa using named), none_behind]
    · rw [List.find?_cons_of_neg (by simpa using named)] at found
      rw [List.filter_cons_of_neg (by simpa using named)]
      exact ih unique.2 found

variable {c : Channel}

theorem lasts_of (unique : (s.channels.map Prod.fst).Nodup)
    (there : s.channel? channel = some c) :
    ((s.channels.filterMap fun entry => (gripLast entry.2).map fun last => (entry.1, last)).filter
      (·.1 = channel)).map Prod.snd =
      (c.prevId.map fun id => c.name ++ "; last-id=" ++ id).toList := by
  obtain ⟨entry, found, rfl⟩ := Option.map_eq_some_iff.mp there
  have named : entry.1 = channel := by simpa using List.find?_some found
  have pick : ∀ e : String × Channel,
      ((gripLast e.2).map fun last => (e.1, last)).filter (fun last => decide (last.1 = channel)) =
        if decide (e.1 = channel) = true then (gripLast e.2).map fun last =>
          (e.1, last) else none := by
    intro e
    cases gripLast e.2 with
    | none => simp
    | some last => by_cases same : e.1 = channel <;> simp [same]
  rw [List.filter_filterMap, funext pick, ← List.filterMap_filter, filter_of_unique unique found]
  cases prevId : entry.2.prevId with
  | none => simp [gripLast, prevId]
  | some id => simp [gripLast, prevId]

theorem requestNextLink_moves (s : Session) : Moves I s s.requestNextLink := by
  unfold requestNextLink
  split
  · intro member
    have same : Same s s.prepareOutReq := Same.of rfl
    obtain ⟨member', -⟩ := same.moves member
    refine ⟨⟨member'.here, member'.queued, member'.unique, member'.linked, member'.checked⟩, _,
      ⟨rfl, rfl, by simp, ?_⟩, by simp⟩
    intro channel t at_s
    refine ⟨⟨⟨at_s.over_.trans member.here, fun listed => ?_⟩, trivial⟩,
      ⟨at_s.listed, at_s.position, at_s.over_, at_s.channelPrefix, at_s.called⟩⟩
    obtain ⟨⟨c, there⟩, -⟩ := at_s.listed.mp listed
    rw [← at_s.position c there]
    exact ⟨c.name, at_s.called c there, lasts_of member.unique there⟩
  · exact Moves.aside rfl

theorem doUpdate_moves (s : Session) : Moves I s s.doUpdate := by
  unfold doUpdate
  split
  · exact moves_of rfl rfl rfl rfl rfl (List.Subset.refl _) (by simp) (fun _ => linked_elsewhere
      (by simp) (by simp) (by simp)) (fun _ => checked_elsewhere (by simp))
  · refine Moves.trans ?_ (requestNextLink_moves _)
    exact moves_of rfl rfl rfl rfl rfl (List.Subset.refl _) (by simp) (fun _ => linked_elsewhere
      (by simp) (by simp) (by simp)) (fun _ => checked_elsewhere (by simp))

theorem updateHolding_moves (holding : s.state = .holding) (priority : Priority) :
    Moves I s (s.updateHolding priority) := by
  have flagged : Moves I s { s with needUpdate := false } := Moves.aside rfl
  unfold updateHolding
  simp only
  split
  · exact flagged
  · cases priority with
    | high => exact flagged.trans (doUpdate_moves _)
    | low =>
      refine moves_of rfl rfl rfl rfl rfl (List.Subset.refl _) (by simp) ?_
        (fun _ => checked_elsewhere (by simp))
      intro linked _
      exact linked (.inl holding)

theorem update_moves (s : Session) (priority : Priority) : Moves I s (s.update priority) := by
  have flagged : Moves I s (s.flagUpdate priority) := by
    unfold flagUpdate
    split_ifs <;> exact Moves.aside rfl
  have unchanged : Moves I s s := Moves.aside rfl
  unfold update
  split
  · exact flagged
  · exact flagged
  · rename_i waiting
    cases priority with
    | low => exact unchanged
    | high =>
      refine Moves.trans ?_ (updateHolding_moves rfl .high)
      refine moves_of rfl rfl rfl rfl rfl (List.Subset.refl _) (by simp) ?_
        (fun _ => checked_elsewhere (by simp))
      intro linked _
      exact linked (.inr (.inr waiting))
  · rename_i holding
    exact updateHolding_moves holding priority
  · exact unchanged

theorem setupKeepAlive_moves (s : Session) : Moves I s s.setupKeepAlive := by
  unfold setupKeepAlive
  split <;> exact Moves.aside rfl

theorem adjustKeepAlive_moves (s : Session) : Moves I s s.adjustKeepAlive := by
  unfold adjustKeepAlive
  split
  · exact setupKeepAlive_moves s
  · exact Moves.aside rfl

def alter (channels : List (String × Channel)) (name : String) (f : Channel → Channel) :
    List (String × Channel) :=
  channels.map fun entry => if entry.1 = name then (entry.1, f entry.2) else entry

theorem alter_names (channels : List (String × Channel)) (name : String) (f : Channel → Channel) :
    (alter channels name f).map Prod.fst = channels.map Prod.fst := by
  rw [alter, List.map_map]
  refine List.map_congr_left fun entry _ => ?_
  simp only [Function.comp_apply]
  split <;> rfl

theorem find_alter (channels : List (String × Channel)) (name : String) (f : Channel → Channel)
    (channel : String) : ((alter channels name f).find? (·.1 = channel)).map Prod.snd =
      if channel = name then ((channels.find? (·.1 = channel)).map Prod.snd).map f
      else (channels.find? (·.1 = channel)).map Prod.snd := by
  have same_name : ((fun entry : String × Channel => decide (entry.1 = channel)) ∘ fun entry =>
      if entry.1 = name then (entry.1, f entry.2) else entry) = fun entry =>
        decide (entry.1 = channel) := by
    funext entry
    by_cases named : entry.1 = name <;> simp [named]
  simp only [alter, List.find?_map, same_name]
  cases found : channels.find? (·.1 = channel) with
  | none => simp
  | some entry =>
    have is : entry.1 = channel := by simpa using List.find?_some found
    by_cases named : channel = name <;> simp [is, named]

variable {item : Item}

theorem followItem_at (there : s.channel? item.channel = some c)
    {t : Track} (at_s : At channel t s) : At channel (t.after channel (.process item))
    (s.followItem item) := by
  have there' : (s.note [.process item]).channel? item.channel = some c := there
  unfold followItem
  simp only [there', Track.after]
  by_cases following : c.prevId.isSome = true
  · rw [if_pos following]
    have altered : channel? { s.note [.process item] with
        channels := alter s.channels item.channel fun _ => { c with prevId := item.id } } channel =
          if channel = item.channel then (s.channel? channel).map fun _ =>
            { c with prevId := item.id }
          else s.channel? channel :=
      find_alter s.channels item.channel (fun _ => { c with prevId := item.id }) channel
    by_cases same : item.channel = channel
    · subst same
      have moving : t.position.isSome = true := by
        rw [← at_s.position c there]
        exact following
      rw [if_pos rfl, there, Option.map_some] at altered
      rw [if_pos ⟨rfl, moving⟩]
      refine ⟨?_, ?_, at_s.over_, at_s.channelPrefix, ?_⟩
      · rw [at_s.listed]
        exact ⟨fun was => ⟨⟨_, altered⟩, was.2⟩, fun is => ⟨⟨c, there⟩, is.2⟩⟩
      · intro c' there'
        cases altered.symm.trans there'
        rfl
      · intro c' there'
        cases altered.symm.trans there'
        exact at_s.called c there
    · rw [if_neg (Ne.symm same)] at altered
      rw [if_neg fun both => same both.1]
      refine ⟨?_, fun c' there' => at_s.position c' (altered.symm.trans there'), at_s.over_,
        at_s.channelPrefix, fun c' there' => at_s.called c' (altered.symm.trans there')⟩
      rw [at_s.listed, ← altered]
      exact Iff.rfl
  · rw [if_neg following]
    have stays : ¬ (item.channel = channel ∧ t.position.isSome = true) := by
      rintro ⟨same, moving⟩
      rw [same] at there
      rw [← at_s.position c there] at moving
      exact following moving
    rw [if_neg stays]
    exact ⟨at_s.listed, at_s.position, at_s.over_, at_s.channelPrefix, at_s.called⟩

theorem followItem_same (item : Item) : (s.followItem item).state = s.state ∧
    (s.followItem item).finished = s.finished ∧ (s.followItem item).instruct = s.instruct ∧
    (s.followItem item).nextUri = s.nextUri ∧
    (s.followItem item).messageFilters = s.messageFilters ∧
    (s.followItem item).history = s.history ++ [.process item] := by
  unfold followItem
  simp only
  split
  · exact ⟨rfl, rfl, rfl, rfl, rfl, rfl⟩
  · split <;> exact ⟨rfl, rfl, rfl, rfl, rfl, rfl⟩

theorem followItem_names (there : s.channel? item.channel = some c) :
    (s.followItem item).channels.map Prod.fst = s.channels.map Prod.fst := by
  have there' : (s.note [.process item]).channel? item.channel = some c := there
  unfold followItem
  simp only [there']
  split
  · exact alter_names s.channels item.channel fun _ => { c with prevId := item.id }
  · rfl

theorem followItem_moves (kind : I item) (awaits : s.Awaits item)
    (none_out : s.messageFilters = none) : Moves I s (s.followItem item) := by
  intro member
  obtain ⟨c, there, turn⟩ := awaits
  obtain ⟨state, finished, instruct, nextUri, filters, history⟩ := followItem_same (s := s) item
  obtain ⟨queue, -, -, -, -⟩ := followItem_kept s item
  refine ⟨⟨?_, by rw [queue]; exact member.queued, ?_, ?_, checked_none (filters.trans none_out)⟩,
    [.process item], ⟨history, ?_, ?_, ?_⟩, by simp⟩
  · simpa only [left, state, finished] using member.here
  · rw [followItem_names there]
    exact member.unique
  · simpa only [Linked, state, instruct, nextUri] using member.linked
  · simp only [holdMode, instruct]
  · intro other there
    cases List.mem_singleton.mp there
    exact kind
  · intro channel t at_s
    refine ⟨⟨fun named => ?_, trivial⟩, followItem_at there at_s⟩
    rw [named] at there
    refine ⟨at_s.listed.mpr ⟨⟨c, there⟩, member.here⟩, ?_⟩
    simpa only [Track.awaits, follows, ← at_s.position c there] using turn

theorem processItem_moves {qi : QueuedItem} (kind : I qi.item) (awaits : s.Awaits qi.item)
    (none_out : s.messageFilters = none) (sendAction : SendAction) (content : Bytes) :
    Moves I s (s.processItem lib qi sendAction content) := by
  have followed := followItem_moves kind awaits none_out
  unfold processItem
  simp only
  split
  · split
    · exact followed.trans (respond_moves lib _ _)
    · exact followed.trans (update_moves _ .high)
    · exact followed
  · split
    · refine followed.trans (Moves.trans ?_ (adjustKeepAlive_moves _))
      exact Moves.aside rfl
    · refine followed.trans (Moves.trans ?_ (update_moves _ .high))
      exact Same.moves ⟨rfl, rfl, rfl, rfl, rfl, rfl, rfl, rfl, List.nil_subset _⟩
    · refine followed.trans ((prepareToClose_moves _).trans ?_)
      exact Moves.aside rfl
    · exact followed
  · exact followed

def Yields {α : Type} (P : α → Prop) : Except Fault α → Prop
  | .ok a => P a
  | .error _ => True

theorem filtersFinished_moves (awaits : ∀ qi, s.publishQueue.head? = some qi → s.Awaits qi.item)
    (result : FilterResult) : Yields (fun done => Moves I s done.1)
    (s.filtersFinished lib result) := by
  unfold filtersFinished
  split
  · trivial
  · rename_i qi rest queue
    have taken : Moves I s { s with publishQueue := rest, messageFilters := none } := by
      intro member
      refine moves_of rfl rfl rfl rfl rfl ?_ (left_false.mp member.here).1 id
        (fun _ => checked_none rfl) member
      rw [queue]
      exact List.subset_cons_self qi rest
    cases result with
    | failed errorMessage =>
      simp only
      split
      · exact taken.trans (doError_moves lib _ _)
      · exact taken
    | passed sendAction content =>
      have turn : Awaits { s with publishQueue := rest, messageFilters := none } qi.item :=
        awaits qi (by rw [queue]; rfl)
      intro member
      have kind : I qi.item := member.queued qi (by rw [queue]; exact List.mem_cons_self)
      exact taken.trans (processItem_moves lib kind turn rfl sendAction content) member

theorem filterItem_moves {qi : QueuedItem} (first : s.publishQueue.head? = some qi)
    (awaits : s.Awaits qi.item) : Yields (fun done => Moves I s done.2) (s.filterItem lib qi) := by
  have started : Moves I s { s with messageFilters := some qi }.startFilters.2 := by
    intro member
    refine moves_of rfl rfl rfl rfl rfl (List.Subset.refl _) (left_false.mp member.here).1 id ?_
      member
    intro _ other out _
    cases out
    exact awaits
  unfold filterItem
  split
  · rename_i s₁ asked
    rw [asked] at started
    exact started
  · rename_i result s₁ asked
    have at₁ : s₁.publishQueue = s.publishQueue ∧ s₁.channels = s.channels := by
      rw [show s₁ = { s with messageFilters := some qi }.startFilters.2 by rw [asked]]
      exact ⟨rfl, rfl⟩
    rw [asked] at started
    have turn : ∀ qi, s₁.publishQueue.head? = some qi → s₁.Awaits qi.item := by
      intro other is
      rw [at₁.1, first] at is
      cases is
      simpa only [Awaits, channel?, at₁.2] using awaits
    have finished := filtersFinished_moves lib (I := I) turn result
    cases outcome : s₁.filtersFinished lib result with
    | error e => trivial
    | ok done =>
      rw [outcome] at finished
      exact started.trans finished

def Scheduled (s : Session) : Prop :=
  s.state = .waitingToUpdate ∧ s.pendingAction = true ∨ s.state = .proxying ∧
    (s.outReq = true ∨ 0 < s.deferred)

structure Recovers (s : Session) (written : Nat) : Prop where
  queue : s.publishQueue = []
  written : s.written.length = written
  link : s.instruct.holdMode = .streamHold → (∃ c ∈ s.instruct.channels, c.prevId.isSome = true) →
    s.nextUri ≠ ""
  scheduled : s.instruct.holdMode = .streamHold → s.nextUri ≠ "" → s.Scheduled

/-- From a session in its channels to one in its channels, which recovers from what
    broke off on the way. -/
def Ends (I : Item → Prop) (s s' : Session) : Prop :=
  Member I s → Member I s' ∧ ∃ new, Logs I s s' new ∧ ∀ item written, .breakOff item written ∈ new →
    Recovers s' written

theorem Moves.ends (moves : Moves I s s') : Ends I s s' := by
  intro member
  obtain ⟨member', new, logs, plain⟩ := moves member
  exact ⟨member', new, logs, fun item written there => absurd there (plain item written)⟩

theorem Moves.then_ends (first : Moves I s s₁) (second : Ends I s₁ s₂) : Ends I s s₂ := by
  intro member
  obtain ⟨member₁, new₁, logs₁, plain₁⟩ := first member
  obtain ⟨member₂, new₂, logs₂, recovers⟩ := second member₁
  refine ⟨member₂, new₁ ++ new₂, logs₁.trans logs₂, ?_⟩
  intro item written there
  rcases List.mem_append.mp there with early | late
  · exact absurd early (plain₁ item written)
  · exact recovers item written late

theorem Moves.then_yields (first : Moves I s s₁) {outcome : Except Fault Session}
    (second : Yields (Ends I s₁) outcome) : Yields (Ends I s) outcome := by
  cases outcome with
  | error e => trivial
  | ok s' => exact first.then_ends second

structure Breaking (s : Session) : Prop where
  sending : s.state = .sendingQueue
  queue : s.publishQueue = []
  flagged : s.needUpdate = true
  none_out : s.messageFilters = none

def Breaks (I : Item → Prop) (s s' : Session) : Prop :=
  Member I s → Member I s' ∧ Breaking s' ∧
    ∃ new, Logs I s s' new ∧ ∀ item written, .breakOff item written ∈ new →
      s'.written.length = written

theorem Moves.then_breaks (first : Moves I s s₁) (second : Breaks I s₁ s₂) : Breaks I s s₂ := by
  intro member
  obtain ⟨member₁, new₁, logs₁, plain₁⟩ := first member
  obtain ⟨member₂, breaking, new₂, logs₂, at_break⟩ := second member₁
  refine ⟨member₂, breaking, new₁ ++ new₂, logs₁.trans logs₂, ?_⟩
  intro item written there
  rcases List.mem_append.mp there with early | late
  · exact absurd early (plain₁ item written)
  · exact at_break item written late

theorem update_flags (sending : s.state = .sendingQueue) (priority : Priority) :
    (s.update priority).needUpdate = true := by
  simp only [update, sending]
  unfold flagUpdate
  split_ifs with needed
  · exact needed
  · exact needed
  · rfl

theorem breakOff_breaks (sending : s.state = .sendingQueue) (none_out : s.messageFilters = none)
    (there : s.channel? item.channel = some c) (skips : follows c item = false) :
    Breaks I s (({ s with publishQueue := [] }.note [.breakOff item s.written.length]).update
      .low) := by
  intro member
  generalize cleared : ({ s with publishQueue := [] }.note [.breakOff item s.written.length]) = s₁
  have noted : Logs I s s₁ [.breakOff item s.written.length] := by
    rw [← cleared]
    refine ⟨rfl, rfl, by simp, ?_⟩
    intro channel t at_s
    refine ⟨⟨fun named => ?_, trivial⟩,
      ⟨at_s.listed, at_s.position, at_s.over_, at_s.channelPrefix, at_s.called⟩⟩
    rw [named] at there
    simpa only [Track.awaits, follows, ← at_s.position c there] using skips
  have member₁ : Member I s₁ := by
    rw [← cleared]
    exact ⟨member.here, List.forall_mem_nil _, member.unique, member.linked, member.checked⟩
  have same : s₁.state = s.state ∧ s₁.publishQueue = [] ∧ s₁.messageFilters = s.messageFilters ∧
      s₁.written = s.written := by
    rw [← cleared]
    exact ⟨rfl, rfl, rfl, rfl⟩
  have sending₁ : s₁.state = .sendingQueue := same.1.trans sending
  obtain ⟨member', new, logs, plain⟩ := update_moves s₁ .low member₁
  obtain ⟨queue, filters, -, -, written⟩ := update_kept s₁ .low
  refine ⟨member', ⟨update_sendingQueue sending₁ .low, queue.trans same.2.1,
    update_flags sending₁ .low, filters.trans (same.2.2.1.trans none_out)⟩, _, noted.trans logs, ?_⟩
  intro other count found
  rcases List.mem_append.mp found with here | later
  · cases List.mem_singleton.mp here
    exact congrArg List.length (written.trans same.2.2.2)
  · exact absurd later (plain other count)

theorem processRound_moves (sending : s.state = .sendingQueue)
    (none_out : s.messageFilters = none) :
    Yields (fun done => Moves I s done.2 ∨ done.1 = false ∧ Breaks I s done.2)
      (s.processRound lib) := by
  unfold processRound
  split
  · exact .inl (Moves.aside rfl)
  · rename_i qi rest queue
    have fewer : rest ⊆ s.publishQueue := by
      rw [queue]
      exact List.subset_cons_self qi rest
    have dropped : Moves I s { s with publishQueue := rest } :=
      Same.moves ⟨rfl, rfl, rfl, rfl, rfl, rfl, rfl, rfl, fewer⟩
    split
    · exact .inl dropped
    · rename_i c there
      split
      · rename_i skips
        exact .inr ⟨rfl, breakOff_breaks sending none_out there skips⟩
      · rename_i turn
        split
        · split
          · exact .inl (dropped.trans (doError_moves lib _ _))
          · exact .inl dropped
        · have first : s.publishQueue.head? = some qi := by
            rw [queue]
            rfl
          have filtered := filterItem_moves lib (I := I) first ⟨c, there, by simpa using turn⟩
          cases outcome : s.filterItem lib qi with
          | error e => trivial
          | ok done =>
            rw [outcome] at filtered
            exact .inl filtered

theorem goesOn_moves (s : Session) : Moves I s s.goesOn.2 := by
  unfold goesOn
  split <;> exact Moves.aside rfl

theorem processLoop_moves (rounds : Nat) (s : Session) :
    Yields (fun s' => Moves I s s' ∨ Breaks I s s') (processLoop lib rounds s) := by
  induction rounds generalizing s with
  | zero =>
    unfold processLoop
    split
    · trivial
    · exact .inl (goesOn_moves s)
  | succ rounds ih =>
    have asked : Moves I s s.goesOn.2 := goesOn_moves s
    obtain ⟨same, kept, sends⟩ := goesOn_spec s
    unfold processLoop
    split
    · rename_i s₁ stops
      rw [stops] at asked
      exact .inl asked
    · rename_i s₁ on
      rw [on] at asked same kept sends
      obtain ⟨sending, -, none_out⟩ := sends rfl
      have sending₁ : s₁.state = .sendingQueue := (congrArg Core.state same).trans sending
      have round := processRound_moves lib (I := I) sending₁ (kept.filters.trans none_out)
      split
      · trivial
      · rename_i s₂ outcome
        rw [outcome] at round
        rcases round with moves | ⟨-, breaks⟩
        · exact .inl (asked.trans moves)
        · exact .inr (asked.then_breaks breaks)
      · rename_i s₂ outcome
        rw [outcome] at round
        rcases round with moves | ⟨last, -⟩
        · have later := ih s₂
          cases rest : processLoop lib rounds s₂ with
          | error e => trivial
          | ok s₃ =>
            rw [rest] at later
            rcases later with moves' | breaks
            · exact .inl (asked.trans (moves.trans moves'))
            · exact .inr (asked.then_breaks (moves.then_breaks breaks))
        · cases last

theorem holding_moves (sending : s.state = .sendingQueue) :
    Moves I s { s with state := .holding } := by
  refine moves_of rfl rfl rfl rfl rfl (List.Subset.refl _) (by simp) ?_
    (fun _ => checked_elsewhere (by simp))
  intro linked _
  exact linked (.inr (.inl sending))

theorem sendQueueDone_moves (s : Session) : Moves I s s.sendQueueDone := by
  have updated : ∀ s₁ : Session, Moves I s₁ (if s₁.needUpdate then s₁.update s₁.needUpdatePriority
      else s₁) := by
    intro s₁
    split
    · exact update_moves s₁ _
    · exact Moves.aside rfl
  unfold sendQueueDone
  split
  · exact Moves.aside rfl
  · rename_i sending
    simp only [ne_eq, Decidable.not_not] at sending
    refine (holding_moves sending).trans ?_
    simp only
    split
    · exact (setupKeepAlive_moves _).trans (updated _)
    · exact updated _

theorem requestNextLink_scheduled (proxying : s.state = .proxying) :
    s.requestNextLink.Scheduled := by
  unfold requestNextLink
  split
  · exact .inr ⟨proxying, .inl rfl⟩
  · exact .inr ⟨proxying, .inr (Nat.succ_pos _)⟩

theorem update_scheduled (holding : s.state = .holding) (stream : s.instruct.holdMode = .streamHold)
    (link : s.nextUri ≠ "") (priority : Priority) : (s.update priority).Scheduled := by
  simp only [update, holding, updateHolding, stream, link, and_false, ↓reduceIte]
  cases priority with
  | high =>
    simp only [doUpdate, stream]
    exact requestNextLink_scheduled rfl
  | low => exact .inl ⟨rfl, rfl⟩

theorem requestNextLink_link (s : Session) :
    s.requestNextLink.instruct = s.instruct ∧ s.requestNextLink.nextUri = s.nextUri := by
  unfold requestNextLink
  split <;> exact ⟨rfl, rfl⟩

theorem update_link (s : Session) (priority : Priority) :
    (s.update priority).instruct = s.instruct ∧ (s.update priority).nextUri = s.nextUri := by
  have done : ∀ s₁ : Session, s₁.doUpdate.instruct = s₁.instruct ∧
      s₁.doUpdate.nextUri = s₁.nextUri := by
    intro s₁
    unfold doUpdate
    split
    · exact ⟨rfl, rfl⟩
    · exact requestNextLink_link _
  have held : ∀ s₁ : Session, (s₁.updateHolding priority).instruct = s₁.instruct ∧
      (s₁.updateHolding priority).nextUri = s₁.nextUri := by
    intro s₁
    unfold updateHolding
    simp only
    split
    · exact ⟨rfl, rfl⟩
    · cases priority with
      | high => exact done _
      | low => exact ⟨rfl, rfl⟩
  have flagged : (s.flagUpdate priority).instruct = s.instruct ∧
      (s.flagUpdate priority).nextUri = s.nextUri := by
    unfold flagUpdate
    split_ifs <;> exact ⟨rfl, rfl⟩
  unfold update
  split
  · exact flagged
  · exact flagged
  · split
    · exact held _
    · exact ⟨rfl, rfl⟩
  · exact held _
  · exact ⟨rfl, rfl⟩

theorem sendQueueDone_recovers (linked : s.Linked) (breaking : Breaking s) :
    Recovers s.sendQueueDone s.written.length := by
  have updated : ∀ s₁ : Session, s₁.state = .holding → s₁.publishQueue = [] →
    s₁.written = s.written →
      s₁.needUpdate = true → s₁.instruct = s.instruct → s₁.nextUri = s.nextUri →
      Recovers (if s₁.needUpdate then s₁.update s₁.needUpdatePriority else s₁)
        s.written.length := by
    intro s₁ holding cleared same needed instruct₁ nextUri₁
    obtain ⟨queue, -, -, -, written⟩ := update_kept s₁ s₁.needUpdatePriority
    obtain ⟨instruct, nextUri⟩ := update_link s₁ s₁.needUpdatePriority
    rw [if_pos needed]
    refine ⟨queue.trans cleared, congrArg List.length (written.trans same), ?_, ?_⟩
    · rw [instruct, nextUri, instruct₁, nextUri₁]
      exact linked (.inr (.inl breaking.sending))
    · intro stream link
      exact update_scheduled holding (by rw [← instruct]; exact stream)
        (by rw [← nextUri]; exact link) _
  unfold sendQueueDone
  rw [if_neg (by simp [breaking.sending])]
  simp only
  split
  · unfold setupKeepAlive
    split <;> exact updated _ rfl breaking.queue rfl breaking.flagged rfl rfl
  · exact updated _ rfl breaking.queue rfl breaking.flagged rfl rfl

theorem processPublishQueue_ends (s : Session) : Yields (Ends I s) (s.processPublishQueue lib) := by
  unfold processPublishQueue
  split
  · trivial
  · have begun : Moves I s { s with inProcessPublishQueue := true } := Moves.aside rfl
    have done : ∀ s₁ : Session, Moves I s₁ { s₁ with inProcessPublishQueue := false } :=
      fun _ => Moves.aside rfl
    have loop :=
      processLoop_moves lib (I := I) s.publishQueue.length { s with inProcessPublishQueue := true }
    cases outcome :
      processLoop lib s.publishQueue.length { s with inProcessPublishQueue := true } with
    | error e => trivial
    | ok s₁ =>
      rw [outcome] at loop
      simp only [bind, Except.bind, pure, Except.pure]
      rcases loop with moves | breaks
      · have moved := begun.trans moves
        split
        · exact (moved.trans (done s₁)).ends
        · split
          · exact (moved.trans ((sendQueueDone_moves s₁).trans (done _))).ends
          · split
            · have stopped :
                  Moves I s₁ { s₁ with timer := false, inProcessPublishQueue := false } :=
                Moves.aside rfl
              exact (moved.trans stopped).ends
            · trivial
      · -- the loop stopped at an item that breaks off: the queue is empty, and the update begins
        have broke := begun.then_breaks breaks
        split
        · rename_i out
          intro member
          obtain ⟨-, breaking, -⟩ := broke member
          rw [breaking.none_out] at out
          cases out
        · split
          · intro member
            obtain ⟨member₁, breaking, new, logs, at_break⟩ := broke member
            obtain ⟨member₂, new₂, logs₂, plain⟩ := (sendQueueDone_moves s₁).trans (done _) member₁
            obtain ⟨queue, written, link, scheduled⟩ :=
              sendQueueDone_recovers member₁.linked breaking
            refine ⟨member₂, new ++ new₂, logs.trans logs₂, ?_⟩
            intro item count there
            rcases List.mem_append.mp there with early | late
            · exact ⟨queue, written.trans (at_break item count early), link, scheduled⟩
            · exact absurd late (plain item count)
          · rename_i busy
            split
            · intro member
              obtain ⟨-, breaking, -⟩ := broke member
              exact absurd (.inr breaking.queue) busy
            · trivial

theorem sendQueue_ends (none_out : s.messageFilters = none)
    (linked : Linked { s with state := .sendingQueue }) : Yields (Ends I s) (s.sendQueue lib) := by
  have sending : Moves I s { s with state := .sendingQueue } :=
    moves_of rfl rfl rfl rfl rfl (List.Subset.refl _) (by simp) (fun _ => linked)
      (fun _ => checked_none none_out)
  exact sending.then_yields (processPublishQueue_ends lib _)

def prevIdIn (channels : List (String × Channel)) (channel : String) : Option (Option String) :=
  ((channels.find? (·.1 = channel)).map Prod.snd).map Channel.prevId

def nameIn (channels : List (String × Channel)) (channel : String) : Option String :=
  ((channels.find? (·.1 = channel)).map Prod.snd).map Channel.name

theorem at_iff {t : Track} : At channel t s ↔
    (t.listed = true ↔ (prevIdIn s.channels channel).isSome = true ∧ s.left = false) ∧
      (∀ prevId, prevIdIn s.channels channel = some prevId → prevId = t.position) ∧
      t.over_ = s.left ∧
      t.channelPrefix = s.adata.channelPrefix ∧
      ∀ name, nameIn s.channels channel = some name →
        Calls t.channelPrefix channel t.implied name := by
  have there : (∃ c, s.channel? channel = some c) ↔
      (prevIdIn s.channels channel).isSome = true := by
    rw [prevIdIn, Option.isSome_map, Option.isSome_iff_exists]
    rfl
  constructor
  · rintro ⟨listed, position, over_, channelPrefix, called⟩
    refine ⟨by rw [listed, there], fun prevId is => ?_, over_, channelPrefix, fun name is => ?_⟩
    · obtain ⟨c, found, rfl⟩ := Option.map_eq_some_iff.mp is
      exact position c found
    · obtain ⟨c, found, rfl⟩ := Option.map_eq_some_iff.mp is
      exact called c found
  · rintro ⟨listed, position, over_, channelPrefix, called⟩
    refine ⟨by rw [listed, there], fun c found => position c.prevId ?_, over_, channelPrefix,
      fun c found => called c.name ?_⟩
    · exact Option.map_eq_some_iff.mpr ⟨c, found, rfl⟩
    · exact Option.map_eq_some_iff.mpr ⟨c, found, rfl⟩

theorem prevIdIn_isSome :
    (prevIdIn channels channel).isSome = true ↔ channel ∈ channels.map Prod.fst := by
  simp only [prevIdIn, Option.isSome_map, List.find?_isSome, decide_eq_true_eq, List.mem_map]

theorem any_named (channels : List (String × Channel)) (channel : String) :
    channels.any (·.1 = channel) = (prevIdIn channels channel).isSome := by
  rw [Bool.eq_iff_iff, prevIdIn_isSome]
  simp only [List.any_eq_true, decide_eq_true_eq, List.mem_map]

theorem takeUp_find (channels : List (String × Channel)) (name : String) (c : Channel)
    (channel : String) : ((takeUp channels name c).find? (·.1 = channel)).map Prod.snd =
      if channel = name then
        some (((channels.find? (·.1 = channel)).map fun entry =>
          { entry.2 with prevId := c.prevId, filters := c.filters }).getD c)
      else (channels.find? (·.1 = channel)).map Prod.snd := by
  unfold takeUp
  split
  · rename_i there
    have altered := find_alter channels name
      (fun ch => { ch with prevId := c.prevId, filters := c.filters }) channel
    simp only [alter] at altered
    rw [altered]
    split
    · rename_i same
      obtain ⟨entry, mem, named⟩ := List.any_eq_true.mp there
      have found : (channels.find? (·.1 = channel)).isSome = true := by
        rw [List.find?_isSome]
        exact ⟨entry, mem, by rw [same]; exact named⟩
      obtain ⟨other, is⟩ := Option.isSome_iff_exists.mp found
      rw [is]
      rfl
    · rfl
  · rename_i absent
    rw [List.find?_append]
    by_cases same : channel = name
    · have none_there : channels.find? (·.1 = channel) = none := by
        rw [List.find?_eq_none]
        intro entry mem named
        exact absent (List.any_eq_true.mpr ⟨entry, mem, by rw [← same]; exact named⟩)
      rw [none_there, if_pos same]
      simp [same]
    · simp [same, Ne.symm same]

theorem takeUp_prevId (channels : List (String × Channel)) (name : String) (c : Channel)
    (channel : String) : prevIdIn (takeUp channels name c) channel =
      if channel = name then some c.prevId else prevIdIn channels channel := by
  rw [prevIdIn, takeUp_find]
  split
  · cases channels.find? (·.1 = channel) <;> rfl
  · rfl

theorem takeUp_unique (unique : (channels.map Prod.fst).Nodup) (name : String)
    (c : Channel) : ((takeUp channels name c).map Prod.fst).Nodup := by
  unfold takeUp
  split
  · have names :=
      alter_names channels name fun ch => { ch with prevId := c.prevId, filters := c.filters }
    simp only [alter] at names
    rw [names]
    exact unique
  · rename_i absent
    rw [List.map_append, List.nodup_append]
    refine ⟨unique, by simp, ?_⟩
    intro other mem named
    simp only [List.map_cons, List.map_nil, List.mem_singleton]
    rintro rfl same
    obtain ⟨entry, there, rfl⟩ := List.mem_map.mp mem
    exact absent (List.any_eq_true.mpr ⟨entry, there, decide_eq_true same⟩)

theorem heldId_cons (channel : String) (first : String × Option String)
    (rest : List (String × Option String)) :
    heldId channel (first :: rest) =
      (heldId channel rest).or (if channel = first.1 then some first.2 else none) := by
  simp only [heldId, List.reverse_cons, List.find?_append]
  cases rest.reverse.find? (·.1 = channel) with
  | some entry => simp
  | none =>
    by_cases same : channel = first.1
    · simp [same]
    · simp [same, Ne.symm same]

theorem takeUps_prevId (wanted channels : List (String × Channel)) (channel : String) :
    prevIdIn (wanted.foldl (fun channels entry => takeUp channels entry.1 entry.2) channels)
      channel =
      (heldId channel (wanted.map fun entry => (entry.1, entry.2.prevId))).or
      (prevIdIn channels channel) := by
  induction wanted generalizing channels with
  | nil => simp [heldId]
  | cons first rest ih =>
    rw [List.foldl_cons, ih, takeUp_prevId, List.map_cons, heldId_cons, Option.or_assoc]
    by_cases same : channel = first.1 <;> simp [same]

theorem takeUps_unique (wanted : List (String × Channel))
    (unique : (channels.map Prod.fst).Nodup) :
    ((wanted.foldl (fun channels entry => takeUp channels entry.1 entry.2) channels).map
    Prod.fst).Nodup := by
  induction wanted generalizing channels with
  | nil => exact unique
  | cons first rest ih => exact ih (takeUp_unique unique first.1 first.2)

theorem takeUp_name (channels : List (String × Channel)) (name : String) (c : Channel)
    (channel : String) : nameIn (takeUp channels name c) channel =
      (nameIn channels channel).or (if channel = name then some c.name else none) := by
  rw [nameIn, nameIn, takeUp_find]
  cases channels.find? (·.1 = channel) <;> split <;> rfl

theorem takeUps_name (wanted channels : List (String × Channel)) (channel : String) :
    nameIn (wanted.foldl (fun channels entry => takeUp channels entry.1 entry.2) channels) channel =
      (nameIn channels channel).or (nameIn wanted channel) := by
  induction wanted generalizing channels with
  | nil => simp [nameIn]
  | cons first rest ih =>
    rw [List.foldl_cons, ih, takeUp_name, Option.or_assoc]
    congr 1
    by_cases same : channel = first.1
    · simp [nameIn, same]
    · simp [nameIn, same, Ne.symm same]

theorem find_filter_names (channels : List (String × Channel)) (keeps : String → Bool)
    (channel : String) : (channels.filter fun entry => keeps entry.1).find? (·.1 = channel) =
      if keeps channel then channels.find? (·.1 = channel) else none := by
  rw [List.find?_filter]
  have named : ∀ entry : String × Channel, decide (keeps entry.1 = true ∧
      decide (entry.1 = channel) = true) = (keeps channel && decide (entry.1 = channel)) := by
    intro entry
    by_cases same : entry.1 = channel <;> simp [same]
  rw [funext named]
  cases keeps channel <;> simp

theorem prevIdIn_filter (channels : List (String × Channel)) (keeps : String → Bool)
    (channel : String) : prevIdIn (channels.filter fun entry => keeps entry.1) channel =
      if keeps channel then prevIdIn channels channel else none := by
  rw [prevIdIn, find_filter_names]
  split <;> rfl

theorem nameIn_filter (channels : List (String × Channel)) (keeps : String → Bool)
    (channel : String) : nameIn (channels.filter fun entry => keeps entry.1) channel =
      if keeps channel then nameIn channels channel else none := by
  rw [nameIn, find_filter_names]
  split <;> rfl

theorem nameIn_isSome : (nameIn channels channel).isSome = (prevIdIn channels channel).isSome := by
  simp only [nameIn, prevIdIn, Option.isSome_map]

theorem wanted_name {name : String} (found : nameIn s.wanted channel = some name) :
    s.adata.channelPrefix ++ name = channel := by
  obtain ⟨c, there, rfl⟩ := Option.map_eq_some_iff.mp found
  obtain ⟨entry, is, rfl⟩ := Option.map_eq_some_iff.mp there
  have named : entry.1 = channel := by simpa using List.find?_some is
  obtain ⟨c, -, rfl⟩ := List.mem_map.mp (List.mem_of_find?_eq_some is)
  exact named

theorem subscribe_moves (none_out : s.messageFilters = none) : Moves I s s.subscribe := by
  intro member
  generalize isKept : (s.channels.filter fun entry => s.stays entry.1) = kept
  generalize isUpdated :
    s.wanted.foldl (fun channels entry => takeUp channels entry.1 entry.2) kept = updated
  generalize isRemoved : (s.channels.filter fun entry => !s.stays entry.1).map Prod.fst = removed
  generalize isAdded : ((updated.map Prod.fst).filter fun name => !kept.any (·.1 = name)) = added
  generalize isHeld : (s.wanted.map fun entry => (entry.1, entry.2.prevId)) = held
  have subscribed :
      s.subscribe = { s with channels := updated }.note [.hold removed added held] := by
    simp only [subscribe, isKept, isUpdated, isRemoved, isAdded, isHeld]
  have unique : (updated.map Prod.fst).Nodup := by
    rw [← isUpdated, ← isKept]
    exact takeUps_unique _ ((List.filter_sublist.map _).nodup member.unique)
  rw [subscribed]
  refine ⟨⟨member.here, member.queued, unique, member.linked, checked_none none_out⟩,
    [.hold removed added held], ⟨rfl, rfl, by simp, ?_⟩, by simp⟩
  intro channel t at_s
  obtain ⟨listed, position, over_, channelPrefix, called⟩ := at_iff.mp at_s
  have inKept : prevIdIn kept channel = if s.stays channel then prevIdIn s.channels channel
      else none := by
    rw [← isKept]
    exact prevIdIn_filter s.channels s.stays channel
  have inUpdated : prevIdIn updated channel = (heldId channel held).or (prevIdIn kept channel) := by
    rw [← isUpdated, ← isHeld]
    exact takeUps_prevId ..
  have inRemoved : channel ∈ removed ↔
      (prevIdIn s.channels channel).isSome = true ∧ s.stays channel = false := by
    rw [← isRemoved, ← prevIdIn_isSome, prevIdIn_filter s.channels (fun name => !s.stays name)]
    cases s.stays channel <;> simp
  have inAdded : channel ∈ added ↔ (prevIdIn updated channel).isSome = true ∧
      (prevIdIn kept channel).isSome = false := by
    rw [← isAdded, List.mem_filter, ← prevIdIn_isSome, any_named, Bool.not_eq_true']
  have now : (t.listed && decide (channel ∉ removed) || decide (channel ∈ added)) = true ↔
      (prevIdIn updated channel).isSome = true := by
    simp only [Bool.or_eq_true, Bool.and_eq_true, decide_eq_true_eq, listed, member.here, and_true,
      inRemoved, inAdded, inUpdated, inKept]
    cases (prevIdIn s.channels channel) <;> cases s.stays channel <;> cases heldId channel held
      <;> simp
  refine ⟨⟨fun specified => now.mpr ?_, trivial⟩, at_iff.mpr ⟨?_, ?_, over_, channelPrefix, ?_⟩⟩
  · rw [inUpdated, Option.isSome_or, specified, Bool.true_or]
  · exact now.trans ⟨fun there => ⟨there, member.here⟩, fun there => there.1⟩
  · intro prevId is
    have is' : (heldId channel held).or (prevIdIn kept channel) = some prevId :=
      inUpdated.symm.trans is
    simp only [Track.afterAll, List.foldl_cons, List.foldl_nil, Track.after]
    cases specified : heldId channel held with
    | some given =>
      rw [specified, Option.some_or] at is'
      exact (Option.some.inj is').symm
    | none =>
      rw [specified, Option.none_or, inKept] at is'
      split at is'
      · exact position prevId is'
      · cases is'
  · intro name is
    have keptName : nameIn kept channel = if s.stays channel then nameIn s.channels channel
        else none := by
      rw [← isKept]
      exact nameIn_filter s.channels s.stays channel
    have named : (nameIn kept channel).or (nameIn s.wanted channel) = some name := by
      rw [← takeUps_name, isUpdated]
      exact is
    simp only [Track.afterAll, List.foldl_cons, List.foldl_nil, Track.after]
    cases old : nameIn kept channel with
    | some given =>
      have stayed : channel ∉ added := by
        rw [inAdded, ← @nameIn_isSome kept, old]
        simp
      rw [old, Option.some_or] at named
      cases named
      rw [old] at keptName
      split at keptName
      · simpa [stayed] using called _ keptName.symm
      · cases keptName
    | none =>
      have new : channel ∈ added := by
        rw [inAdded, ← @nameIn_isSome kept, old, ← nameIn_isSome,
          show nameIn updated channel = some name from is]
        exact ⟨rfl, rfl⟩
      rw [old, Option.none_or] at named
      simpa [Calls, new, channelPrefix] using wanted_name named

theorem implicitSubscribe_moves (none_out : s.messageFilters = none) :
    Moves I s s.implicitSubscribe := by
  intro member
  generalize isNames :
    (s.adata.implicitChannels.dedup.filter fun name => !s.channels.any (·.1 = name)) = names
  generalize isAdded : names.map (fun name => (name, (⟨name, none, []⟩ : Channel))) = added
  have subscribed : s.implicitSubscribe = { s with channels := s.channels ++ added }.note
      [.start names] := by
    simp only [implicitSubscribe, isNames, isAdded]
  have absent : ∀ name ∈ names, name ∉ s.channels.map Prod.fst := by
    intro name mem
    rw [← isNames, List.mem_filter, any_named] at mem
    rw [← prevIdIn_isSome]
    simpa using mem.2
  have addedNames : added.map Prod.fst = names := by
    rw [← isAdded, List.map_map]
    exact List.map_id _
  have unique : ((s.channels ++ added).map Prod.fst).Nodup := by
    rw [List.map_append, addedNames, List.nodup_append]
    refine ⟨member.unique, ?_, ?_⟩
    · rw [← isNames]
      exact (List.nodup_dedup _).filter _
    · rintro name there other mem rfl
      exact absent name mem there
  have inAdded : ∀ channel, prevIdIn added channel = if channel ∈ names then some none
      else none := by
    intro channel
    have plain : ∀ prevId, prevIdIn added channel = some prevId → prevId = none := by
      intro prevId is
      obtain ⟨c, found, rfl⟩ := Option.map_eq_some_iff.mp is
      obtain ⟨entry, there, rfl⟩ := Option.map_eq_some_iff.mp found
      have mem := List.mem_of_find?_eq_some there
      rw [← isAdded] at mem
      obtain ⟨name, -, rfl⟩ := List.mem_map.mp mem
      rfl
    have there : (prevIdIn added channel).isSome = true ↔ channel ∈ added.map Prod.fst :=
      prevIdIn_isSome
    rw [addedNames] at there
    cases is : prevIdIn added channel with
    | none =>
      rw [is] at there
      rw [if_neg fun mem => by cases there.mpr mem]
    | some prevId =>
      rw [is] at there
      rw [if_pos (there.mp rfl), plain prevId is]
  rw [subscribed]
  refine ⟨⟨member.here, member.queued, unique, member.linked, checked_none none_out⟩,
    [.start names], ⟨rfl, rfl, by simp, ?_⟩, by simp⟩
  intro channel t at_s
  obtain ⟨listed, position, over_, channelPrefix, called⟩ := at_iff.mp at_s
  have wholeName : nameIn (s.channels ++ added) channel =
      (nameIn s.channels channel).or (nameIn added channel) := by
    simp only [nameIn, List.find?_append]
    cases s.channels.find? (·.1 = channel) <;> simp
  have addedName : ∀ name, nameIn added channel = some name → name = channel := by
    intro name is
    obtain ⟨c, found, rfl⟩ := Option.map_eq_some_iff.mp is
    obtain ⟨entry, there, rfl⟩ := Option.map_eq_some_iff.mp found
    have named : entry.1 = channel := by simpa using List.find?_some there
    have mem := List.mem_of_find?_eq_some there
    rw [← isAdded] at mem
    obtain ⟨name, -, rfl⟩ := List.mem_map.mp mem
    exact named
  have whole : prevIdIn (s.channels ++ added) channel =
      (prevIdIn s.channels channel).or (prevIdIn added channel) := by
    simp only [prevIdIn, List.find?_append]
    cases s.channels.find? (·.1 = channel) <;> simp
  rw [inAdded] at whole
  by_cases mem : channel ∈ names
  · have new : prevIdIn s.channels channel = none := by
      rw [← Option.not_isSome_iff_eq_none, prevIdIn_isSome]
      exact absent channel mem
    rw [new, Option.none_or, if_pos mem] at whole
    refine ⟨⟨⟨over_.trans member.here, fun _ => ?_⟩, trivial⟩, ?_⟩
    · rw [new] at listed
      simpa using listed
    · simp only [Track.afterAll, List.foldl_cons, List.foldl_nil, Track.after, if_pos mem]
      have there : (prevIdIn (s.channels ++ added) channel).isSome = true := by
        rw [whole]
        rfl
      refine at_iff.mpr ⟨⟨fun _ => ⟨there, member.here⟩, fun _ => rfl⟩, ?_, over_,
        channelPrefix, ?_⟩
      · intro prevId is
        exact (Option.some.inj (whole.symm.trans is)).symm
      · intro name is
        have absentName : nameIn s.channels channel = none := by
          rw [← Option.not_isSome_iff_eq_none, nameIn_isSome, new]
          simp
        rw [absentName, Option.none_or] at wholeName
        exact addedName name (wholeName.symm.trans is)
  · rw [if_neg mem, Option.or_none] at whole
    refine ⟨⟨⟨over_.trans member.here, fun there => absurd there mem⟩, trivial⟩, ?_⟩
    simp only [Track.afterAll, List.foldl_cons, List.foldl_nil, Track.after, if_neg mem]
    refine at_iff.mpr ⟨?_, fun prevId is => position prevId (whole.symm.trans is), over_,
      channelPrefix, fun name is => called name ?_⟩
    · rw [listed, ← whole]
      exact Iff.rfl
    · have none_added : nameIn added channel = none := by
        rw [← Option.not_isSome_iff_eq_none, nameIn_isSome, inAdded, if_neg mem]
        simp
      rw [none_added, Option.or_none] at wholeName
      exact wholeName.symm.trans is

theorem limitChannels_moves (s : Session) : Moves I s s.limitChannels := by
  intro member
  have linked : s.limitChannels.Linked := by
    intro state stream
    rintro ⟨c, mem, follows⟩
    exact member.linked state stream ⟨c, List.mem_of_mem_take mem, follows⟩
  refine ⟨⟨member.here, member.queued, member.unique, linked, member.checked⟩,
    [], Unmoved.logs ⟨rfl, rfl, rfl, rfl, rfl⟩, ?_⟩
  intro item written there
  cases there

theorem dropStale_moves (s : Session) : Moves I s s.dropStale :=
  Same.moves ⟨rfl, rfl, rfl, rfl, rfl, rfl, rfl, rfl, (List.dropWhile_sublist _).subset⟩

theorem prepareToSendQueueOrHold_ends (none_out : s.messageFilters = none) (first : Bool) :
    Yields (Ends I s) (s.prepareToSendQueueOrHold lib first) := by
  have subscribed : Moves I s s.subscribe := subscribe_moves none_out
  unfold prepareToSendQueueOrHold
  split
  · trivial
  · rename_i responds
    have holds : Moves I s.subscribe { s.subscribe with
        state := .holding, timer :=
          s.subscribe.timer || decide (s.subscribe.instruct.timeout ≥ 0) } := by
      refine moves_of rfl rfl rfl rfl rfl (List.Subset.refl _) (by simp) ?_
        (fun _ => checked_elsewhere (by simp))
      intro _ _ stream
      exact absurd (responds.symm.trans stream) (by simp)
    exact (subscribed.trans holds).ends
  · split
    · exact (doError_moves lib s _).ends
    · rename_i recoverable
      have link : (∃ c ∈ s.instruct.channels, c.prevId.isSome = true) → s.nextUri ≠ "" := by
        rintro ⟨c, mem, follows⟩ no_link
        rw [if_pos no_link, List.find?_eq_none] at recoverable
        exact recoverable c mem follows
      simp only
      split
      · have holds : Moves I s.subscribe { s.subscribe with state := .holding } :=
          moves_of rfl rfl rfl rfl rfl (List.Subset.refl _) (by simp) (fun _ _ _ => link)
            (fun _ => checked_elsewhere (by simp))
        exact (subscribed.trans (holds.trans (update_moves _ .low))).ends
      · refine (subscribed.trans (dropStale_moves _)).then_yields (sendQueue_ends lib none_out ?_)
        exact fun _ _ => link

theorem firstInstructResponseDone_ends (none_out : s.messageFilters = none) :
    Yields (Ends I s) (s.firstInstructResponseDone lib) := by
  unfold firstInstructResponseDone
  split
  · split
    · trivial
    · exact (doUpdate_moves s).ends
  · exact prepareToSendQueueOrHold_ends lib none_out true

theorem tryWriteFirstInstructResponse_ends (none_out : s.messageFilters = none) :
    Yields (Ends I s) (s.tryWriteFirstInstructResponse lib) := by
  unfold tryWriteFirstInstructResponse writeBytesAvailable
  simp only
  split
  · split
    · refine Moves.then_yields ?_ (firstInstructResponseDone_ends lib none_out)
      exact Moves.aside rfl
    · exact Moves.ends (Moves.aside rfl)
  · exact Moves.ends (Moves.aside rfl)

theorem filterContent_same {result : Bytes ⊕ String} (asked : s.filterContent = (result, s')) :
    Same s s' := by
  cases asked
  exact Same.of rfl

theorem writeBytesAvailable_same {avail : Nat} (asked : s.writeBytesAvailable = (avail, s')) :
    Same s s' := by
  cases asked
  exact Same.of rfl

theorem start_ends (none_out : s.messageFilters = none) : Yields (Ends I s) (s.start lib) := by
  unfold start
  split
  · trivial
  · have begun : Moves I s s.implicitSubscribe.limitChannels :=
      (implicitSubscribe_moves none_out).trans (limitChannels_moves _)
    have none_out₀ : s.implicitSubscribe.limitChannels.messageFilters = none := none_out
    generalize s.implicitSubscribe.limitChannels = s₀ at begun none_out₀
    simp only
    split
    · have opened : Same s₀ (s₀.beginResponse s₀.instruct.response.code s₀.instruct.response.reason
          (lib.opening s₀.adata s₀.instruct.response)) := Same.of rfl
      generalize s₀.beginResponse s₀.instruct.response.code s₀.instruct.response.reason
        (lib.opening s₀.adata s₀.instruct.response) = s₁ at opened
      have none_out₁ : s₁.messageFilters = none := opened.filters.trans none_out₀
      split
      · rcases asked : s₁.filterContent with ⟨body | message, s₂⟩
        · have same := filterContent_same asked
          have writing : Moves I s₂ { s₂ with
              state := .sendingFirstInstructResponse, firstInstructResponse :=
                s₂.firstInstructResponse ++ body } :=
            moves_of rfl rfl rfl rfl rfl (List.Subset.refl _) (by simp) (fun _ => linked_elsewhere
              (by simp) (by simp) (by simp)) (fun _ => checked_elsewhere (by simp))
          exact (begun.trans (opened.moves.trans (same.moves.trans writing))).then_yields
            (tryWriteFirstInstructResponse_ends lib (same.filters.trans none_out₁))
        · exact (begun.trans (opened.moves.trans ((filterContent_same asked).moves.trans
            (doError_moves lib s₂ _)))).ends
      · exact (begun.trans opened.moves).then_yields (firstInstructResponseDone_ends lib none_out₁)
    · exact begun.then_yields (firstInstructResponseDone_ends lib none_out₀)

theorem publish_ends (none_out : s.state = .holding → s.messageFilters = none) (kind : I item)
    (exposeHeaders : List Bytes) : Yields (Ends I s) (s.publish lib item exposeHeaders) := by
  have unchanged : Moves I s s := Moves.aside rfl
  have append : ∀ qi : QueuedItem, qi.item = item → Yields (Ends I s)
      (if s.publishQueue.length < publishQueueMax then
        if s.state = .holding then sendQueue lib { s with publishQueue := s.publishQueue ++ [qi] }
        else .ok { s with publishQueue := s.publishQueue ++ [qi] }
      else .ok s) := by
    intro qi given
    have queued : Moves I s { s with publishQueue := s.publishQueue ++ [qi] } := by
      intro member
      refine ⟨⟨member.here, ?_, member.unique, member.linked, member.checked⟩,
        [], Unmoved.logs ⟨rfl, rfl, rfl, rfl, rfl⟩,
        by simp⟩
      intro other mem
      rcases List.mem_append.mp mem with earlier | new
      · exact member.queued other earlier
      · rw [List.mem_singleton.mp new, given]
        exact kind
    split
    · split
      · rename_i holding
        cases outcome : sendQueue lib { s with publishQueue := s.publishQueue ++ [qi] } with
        | error e => trivial
        | ok s' =>
          intro member
          have linked :
              Linked { s with publishQueue := s.publishQueue ++ [qi], state := .sendingQueue } :=
            fun _ => member.linked (.inl holding)
          have sent :=
            sendQueue_ends lib (I := I) (s := { s with publishQueue := s.publishQueue ++ [qi] })
              (none_out holding) linked
          rw [outcome] at sent
          exact queued.then_ends sent member
      · exact queued.ends
    · exact unchanged.ends
  unfold publish
  cases item.rest.type with
  | httpResponse =>
    simp only
    split
    · trivial
    · split
      · exact append ⟨item, exposeHeaders⟩ rfl
      · exact unchanged.ends
  | httpStream =>
    simp only
    split
    · exact append ⟨item, []⟩ rfl
    · exact unchanged.ends
  | webSocketMessage => exact unchanged.ends

structure Gone (s : Session) : Prop where
  left : s.left = true
  queue : s.publishQueue = []
  manager : s.state = .sendingGone → s.finished = false → s.outZhttp = true

def Leaves (I : Item → Prop) (s s' : Session) : Prop :=
  Gone s' ∧ ∃ new, Logs I s s' new ∧ ∀ item written, .breakOff item written ∉ new

theorem finish_leaves (left : s.left = true) : Leaves I s s.finish := by
  have gone : s.finish.left = true := by simp [finish, note, Session.left]
  refine ⟨⟨gone, rfl, fun _ running => by cases running⟩, [.finish],
    ⟨rfl, rfl, by simp, ?_⟩, by simp⟩
  intro channel t at_s
  refine ⟨⟨trivial, trivial⟩, ⟨?_, at_s.position, at_s.over_.trans (left.trans gone.symm),
    at_s.channelPrefix, at_s.called⟩⟩
  refine at_s.listed.trans ?_
  rw [left, gone]
  simp

theorem leave_all (last : List Happening) (gone : Gone s')
    (history : s'.history = s.history ++ .leave (s.channels.map Prod.fst) :: last)
    (instruct : s'.instruct = s.instruct) (channels : s'.channels = s.channels)
    (adata : s'.adata = s.adata) (only : last = [] ∨ last = [.finish]) : Leaves I s s' := by
  have nothing : ∀ channel t, Track.AdmitsAll channel t last ∧ t.afterAll channel last = t := by
    intro channel t
    rcases only with rfl | rfl
    · exact ⟨trivial, rfl⟩
    · exact ⟨⟨trivial, trivial⟩, rfl⟩
  refine ⟨gone, _, ⟨history, by simp only [holdMode, instruct], ?_, ?_⟩, ?_⟩
  · rcases only with rfl | rfl <;> simp
  · intro channel t at_s
    obtain ⟨listed, position, -, channelPrefix, called⟩ := at_iff.mp at_s
    obtain ⟨admits, after⟩ := nothing channel (t.after channel (.leave (s.channels.map Prod.fst)))
    refine ⟨⟨trivial, admits⟩, ?_⟩
    simp only [Track.afterAll, List.foldl_cons] at after ⊢
    rw [after]
    refine at_iff.mpr ⟨?_, fun prevId is => position prevId (by rw [← channels]; exact is),
      gone.left.symm,
      by rw [adata]; exact channelPrefix, fun name is => called name (by rw [← channels]; exact is)⟩
    simp only [Track.after, Bool.and_eq_true, listed, prevIdIn_isSome, decide_eq_true_eq, gone.left]
    constructor
    · rintro ⟨⟨there, -⟩, absent⟩
      exact absurd there absent
    · rintro ⟨-, impossible⟩
      cases impossible
  · rcases only with rfl | rfl <;> simp

theorem doFinish_leaves (s : Session) : Yields (Leaves I s) s.doFinish := by
  have same : ∀ names : List Happening, (s.cancelActivities.note names).history = s.history ++
      names ∧ (s.cancelActivities.note names).instruct = s.instruct ∧
      (s.cancelActivities.note names).channels = s.channels ∧
      (s.cancelActivities.note names).adata = s.adata ∧
        (s.cancelActivities.note names).publishQueue = [] :=
    fun _ => ⟨rfl, rfl, rfl, rfl, rfl⟩
  unfold doFinish
  simp only
  obtain ⟨history, instruct, channels, adata, queue⟩ := same [.leave (s.channels.map Prod.fst)]
  generalize s.cancelActivities.note [.leave (s.channels.map Prod.fst)] =
    s₁ at history instruct channels adata queue
  split
  · split
    · rename_i manager
      exact leave_all [] ⟨by simp [left, prepareOutReq], queue, fun _ _ => manager⟩ history instruct
        channels adata (.inl rfl)
    · trivial
  · refine leave_all [.finish]
      ⟨by simp [finish, note, left], rfl, fun _ running => by cases running⟩ ?_
      instruct channels adata (.inr rfl)
    show s₁.history ++ [.finish] = _
    rw [history, List.append_assoc]
    rfl

theorem outReqError_ends (s : Session) : Yields (Ends I s) (s.outReqError lib) := by
  unfold outReqError
  have cleaned : Moves I s s.cleanupOutReq := Moves.aside rfl
  simp only
  split
  · split
    · exact Moves.ends (Moves.aside rfl)
    · exact (cleaned.trans (doError_moves lib _ _)).ends
  · rename_i gone
    intro member
    exact absurd gone (left_false.mp member.here).1
  · trivial

theorem proxyBody_moves (s : Session) : Moves I s (s.proxyBody lib).1 := by
  have unchanged : Moves I s s := Moves.aside rfl
  unfold proxyBody
  split
  · exact unchanged
  · rcases asked : writeBytesAvailable { s with timer := false } with ⟨avail, s₁⟩
    have stopped : Moves I s { s with timer := false } := Moves.aside rfl
    have moved := stopped.trans (writeBytesAvailable_same asked).moves
    simp only
    split
    · exact moved
    · have read : Moves I s
          { s₁ with answers := { s₁.answers with outBody := s₁.answers.outBody.drop avail } } :=
        moved.trans (Moves.aside rfl)
      split
      · split
        · rename_i message s₂ filtered
          exact read.trans ((filterContent_same filtered).moves.trans (doError_moves lib s₂ _))
        · rename_i buf s₂ filtered
          exact read.trans ((filterContent_same filtered).moves.trans
            (Moves.aside rfl))
      · exact read.trans (Moves.aside rfl)

theorem proxyEnd_moves (s : Session) : Moves I s (s.proxyEnd lib).1 := by
  unfold proxyEnd
  split
  · split
    · rename_i message s₁ filtered
      exact (filterContent_same filtered).moves.trans (doError_moves lib s₁ _)
    · rename_i buf s₁ filtered
      simp only
      split
      · exact (filterContent_same filtered).moves.trans (Moves.aside rfl)
      · exact (filterContent_same filtered).moves.trans (Moves.aside rfl)
  · exact Moves.aside rfl

theorem proxyBody_goes_on (going : s.proxyBody lib = (s', true)) :
    s'.state = s.state ∧ s'.messageFilters = s.messageFilters := by
  unfold proxyBody at going
  split at going
  · cases going
    exact ⟨rfl, rfl⟩
  · rcases asked : writeBytesAvailable { s with timer := false } with ⟨avail, s₁⟩
    have same := writeBytesAvailable_same asked
    rw [asked] at going
    simp only at going
    split at going
    · cases going
    · split at going
      · split at going
        · cases going
        · rename_i buf s₂ filtered
          have same₂ := filterContent_same filtered
          cases going
          exact ⟨same₂.state.trans same.state, same₂.filters.trans same.filters⟩
      · cases going
        exact ⟨same.state, same.filters⟩

theorem proxyEnd_goes_on (going : s.proxyEnd lib = (s', true)) :
    s'.state = s.state ∧ s'.messageFilters = s.messageFilters := by
  unfold proxyEnd at going
  split at going
  · split at going
    · cases going
    · rename_i buf s₁ filtered
      have same := filterContent_same filtered
      simp only at going
      split at going <;> cases going <;> exact ⟨same.state, same.filters⟩
  · cases going
    exact ⟨rfl, rfl⟩

theorem linkDone_ends (proxying : s.state = .proxying) (none_out : s.messageFilters = none) :
    Yields (Ends I s) (s.linkDone lib) := by
  unfold linkDone
  simp only
  generalize next : (if s.cleanupOutReq.instruct.nextLink = "" then ""
    else lib.resolved s.nextUri s.cleanupOutReq.instruct.nextLink) = uri
  have done : Moves I s
      { s.cleanupOutReq with retries := 0, currentUri := s.nextUri, nextUri := uri } :=
    moves_of rfl rfl rfl rfl rfl (List.Subset.refl _) (by simp [cleanupOutReq, proxying])
      (fun _ => linked_elsewhere (by simp [cleanupOutReq, proxying])
        (by simp [cleanupOutReq, proxying]) (by simp [cleanupOutReq, proxying]))
      (fun _ => checked_elsewhere (by simp [cleanupOutReq, proxying]))
  have limited := done.trans (limitChannels_moves _)
  have none_out' : (limitChannels { s.cleanupOutReq with
      retries := 0, currentUri := s.nextUri, nextUri := uri }).messageFilters = none := none_out
  generalize limitChannels { s.cleanupOutReq with
    retries := 0, currentUri := s.nextUri, nextUri := uri } = s₁ at limited none_out'
  split
  · split
    · have stopped : Moves I s₁ { s₁ with timer := false } := Moves.aside rfl
      exact (limited.trans stopped).then_yields
        (prepareToSendQueueOrHold_ends lib (s := { s₁ with timer := false }) none_out' false)
    · exact limited.then_yields (prepareToSendQueueOrHold_ends lib none_out' false)
  · exact limited.ends

theorem Yields.imp {α β : Type} {P : α → Prop} {Q : β → Prop} {f : α → β} {outcome : Except Fault α}
    (yields : Yields P outcome) (weaker : ∀ a, P a → Q (f a)) : Yields Q (outcome.map f) := by
  cases outcome with
  | error e => trivial
  | ok a => exact weaker a yields

theorem processOutReq_ends (none_out : s.state = .proxying → s.messageFilters = none) :
    Yields (fun done => Ends I s done.1) (s.processOutReq lib) := by
  have unchanged : Ends I s s := Moves.ends (Moves.aside rfl)
  unfold processOutReq
  split
  · exact unchanged
  · split
    · exact unchanged
    · split
      · exact (outReqError_ends lib s).imp fun _ ends => ends
      · split
        · rename_i proxying
          have body : Moves I s (s.proxyBody lib).1 := proxyBody_moves lib s
          split
          · rename_i s₁ outcome
            rw [outcome] at body
            exact body.ends
          · rename_i s₁ outcome
            rw [outcome] at body
            split
            · have finished : Moves I s₁ (s₁.proxyEnd lib).1 := proxyEnd_moves lib s₁
              split
              · rename_i s₂ outcome'
                rw [outcome'] at finished
                exact (body.trans finished).ends
              · rename_i s₂ outcome'
                rw [outcome'] at finished
                have still : s₂.state = .proxying ∧ s₂.messageFilters = s.messageFilters := by
                  obtain ⟨state₁, filters₁⟩ := proxyBody_goes_on lib outcome
                  obtain ⟨state₂, filters₂⟩ := proxyEnd_goes_on lib outcome'
                  exact ⟨state₂.trans (state₁.trans proxying), filters₂.trans filters₁⟩
                exact ((body.trans finished).then_yields
                  (linkDone_ends lib still.1 (still.2.trans (none_out proxying)))).imp fun _ ends =>
                    ends
            · exact body.ends
        · rename_i gone
          have not_member : ∀ s', Ends I s s' :=
            fun s' member => absurd gone (left_false.mp member.here).1
          split
          · exact (outReqError_ends lib s).imp fun _ ends => ends
          · split
            · exact not_member _
            · exact unchanged
        · trivial

theorem Ends.then_moves (ends : Ends I s s₁) (moves : Moves I s₁ s₂)
    (recovers : ∀ outputs, s₁.Recovers outputs → s₂.Recovers outputs) : Ends I s s₂ := by
  intro member
  obtain ⟨member₁, new₁, logs₁, recovers₁⟩ := ends member
  obtain ⟨member₂, new₂, logs₂, plain⟩ := moves member₁
  refine ⟨member₂, new₁ ++ new₂, logs₁.trans logs₂, ?_⟩
  intro item count there
  rcases List.mem_append.mp there with early | late
  · exact recovers count (recovers₁ item count early)
  · exact absurd late (plain item count)

theorem Ends.then_next (ends : Ends I s s₁) (proxying : s₁.state = .proxying) :
    Ends I s s₁.requestNextLink := by
  obtain ⟨queue, -, -, -, written⟩ := requestNextLink_kept s₁
  obtain ⟨instruct, nextUri⟩ := requestNextLink_link s₁
  apply ends.then_moves (requestNextLink_moves s₁)
  rintro outputs ⟨cleared, outputs, link, -⟩
  exact ⟨queue.trans cleared, (congrArg List.length written).trans outputs,
    by rw [instruct, nextUri]; exact link, fun _ _ => requestNextLink_scheduled proxying⟩

theorem Ends.then_close (ends : Ends I s s₁) (no_link : s₁.nextUri = "") :
    Ends I s s₁.prepareToClose.endBody :=
  ends.then_moves ((prepareToClose_moves s₁).trans (Moves.aside rfl)) fun _ recovers =>
    ⟨rfl, recovers.written, recovers.link, fun _ link => absurd no_link link⟩

theorem Ends.same (ends : Ends I s s₁) (same : Same s₁ s₂)
    (queue : s₂.publishQueue = s₁.publishQueue) (written : s₂.written = s₁.written)
    (scheduled : s₁.Scheduled → s₂.Scheduled) : Ends I s s₂ := by
  apply ends.then_moves same.moves
  rintro outputs ⟨cleared, outputs, linked, waits⟩
  exact ⟨queue.trans cleared, (congrArg List.length written).trans outputs,
    by rw [same.instruct, same.nextUri]; exact linked,
    fun stream link => scheduled
      (waits (by rw [← same.instruct]; exact stream) (by rw [← same.nextUri]; exact link))⟩

theorem tryProcessOutReq_ends (none_out : s.state = .proxying → s.messageFilters = none) :
    Yields (Ends I s) (s.tryProcessOutReq lib) := by
  have processed := processOutReq_ends lib (I := I) none_out
  unfold tryProcessOutReq
  cases outcome : s.processOutReq lib with
  | error e => trivial
  | ok done =>
    obtain ⟨s₁, more⟩ := done
    rw [outcome] at processed
    simp only [bind, Except.bind, pure, Except.pure]
    split
    · rename_i next
      split
      · rcases asked : s₁.writeBytesAvailable with ⟨avail, s₂⟩
        have same := writeBytesAvailable_same asked
        have ends₂ : Ends I s s₂ := by
          refine Ends.same processed same ?_ ?_ ?_ <;> cases asked
          · rfl
          · rfl
          · exact id
        simp only
        split
        · exact ends₂.then_next (same.state.trans next.2.1)
        · exact ends₂
      · rename_i no_link
        exact Ends.then_close processed (Decidable.not_not.mp no_link)
    · exact processed

theorem instructed_moves (proxying : s.state = .proxying)
    (stream : s.instruct.holdMode ≠ .responseHold) {i : Instruct}
    (still : i.holdMode ≠ .responseHold) :
    Moves I s { s with haveOutReqHeaders := true, instruct := i, responseFilters := true } := by
  intro member
  have mode : ∀ i : Instruct, i.holdMode ≠ .responseHold →
      (if i.holdMode = .noHold then HoldMode.streamHold else i.holdMode) = .streamHold := by
    intro i other
    cases given : i.holdMode <;> simp_all
  refine ⟨⟨member.here, member.queued, member.unique, linked_elsewhere ?_ ?_ ?_,
    checked_elsewhere ?_⟩, [], Unmoved.logs ⟨rfl, ?_, rfl, rfl, rfl⟩, by simp⟩
  · simp [proxying]
  · simp [proxying]
  · simp [proxying]
  · simp [proxying]
  · simp only [holdMode, mode i still, mode s.instruct stream]

theorem outReqReadyRead_ends (fine : s.core.Fine) (none_out : s.state = .proxying →
    s.messageFilters = none) : Yields (Ends I s) (s.outReqReadyRead lib) := by
  have headed : Moves I s { s with haveOutReqHeaders := true } := Moves.aside rfl
  unfold outReqReadyRead
  split
  · exact tryProcessOutReq_ends lib none_out
  · simp only
    split
    · rename_i proxying
      split
      · exact (headed.trans (doError_moves lib _ _)).ends
      · rename_i i _
        split
        · exact (headed.trans (doError_moves lib _ _)).ends
        · rename_i still
          refine (instructed_moves proxying (fine.mode proxying) still).then_yields ?_
          exact tryProcessOutReq_ends lib (s := { s with
            haveOutReqHeaders := true, instruct := i, responseFilters := true }) none_out
    · exact headed.then_yields
        (tryProcessOutReq_ends lib (s := { s with haveOutReqHeaders := true }) none_out)

theorem timerTimeout_moves (s : Session) : Moves I s (s.timerTimeout lib) := by
  have stopped : Moves I s { s with timer := false } := Moves.aside rfl
  unfold timerTimeout
  simp only
  split
  · exact stopped.trans (respond_moves lib _ _)
  · refine stopped.trans (Moves.trans ?_ (setupKeepAlive_moves _))
    exact Moves.aside rfl
  · exact stopped

theorem writeBytesChanged_ends (none_out : s.state ≠ .sendingQueue → s.messageFilters = none) :
    Yields (Ends I s) (s.writeBytesChanged lib) := by
  have unchanged : Ends I s s := Moves.ends (Moves.aside rfl)
  unfold writeBytesChanged
  split
  · rename_i first
    exact tryWriteFirstInstructResponse_ends lib (none_out (by simp [first]))
  · rename_i proxying
    exact tryProcessOutReq_ends lib fun _ => none_out (by simp [proxying])
  · rcases asked : s.writeBytesAvailable with ⟨avail, s₁⟩
    have moved : Moves I s s₁ := (writeBytesAvailable_same asked).moves
    simp only
    split
    · exact moved.then_yields (processPublishQueue_ends lib s₁)
    · exact moved.ends
  · exact unchanged

theorem messageFiltersFinished_ends (awaits : ∀ qi, s.publishQueue.head? = some qi →
    s.Awaits qi.item)
    (result : FilterResult) : Yields (Ends I s) (s.messageFiltersFinished lib result) := by
  have finished := filtersFinished_moves lib (I := I) awaits result
  unfold messageFiltersFinished
  cases outcome : s.filtersFinished lib result with
  | error e => trivial
  | ok done =>
    obtain ⟨s₁, resumes⟩ := done
    rw [outcome] at finished
    simp only [bind, Except.bind, pure, Except.pure]
    split
    · exact Moves.then_yields finished (processPublishQueue_ends lib s₁)
    · exact Moves.ends finished

def reaches (s : Session) (event : SessionEvent × Answers) : Bool :=
  s.possible event && (!s.finished || decide (event.1 = .delete))

theorem reaches_iff {event : SessionEvent × Answers} : s.reaches event = true ↔
    s.possible event = true ∧ (s.finished = true → event.1 = .delete) := by
  rw [reaches, Bool.and_eq_true]
  cases s.finished <;> simp

variable {answers : Answers}

theorem possible_delete (can : s.possible (.delete, answers) = true) : s.finished = true := by
  simp only [possible, Bool.and_eq_true] at can
  exact can.2

variable {event : SessionEvent}

theorem handle_ends (member : Member I s) (live : Live s)
    (can : s.possible (event, answers) = true) (kind : event.Publishes I) :
    Yields (fun s' => Ends I s s' ∨ Leaves I s s') (handle lib s event) := by
  obtain ⟨start, -, filtersFinish, -⟩ := possible_iff can
  have unchanged : Moves I s s := Moves.aside rfl
  have ends : ∀ {outcome : Except Fault Session}, Yields (Ends I s) outcome →
      Yields (fun s' => Ends I s s' ∨ Leaves I s s') outcome := by
    intro outcome yields
    cases outcome with
    | error e => trivial
    | ok s' => exact .inl yields
  have leaves : Yields (fun s' => Ends I s s' ∨ Leaves I s s') s.doFinish := by
    have left := doFinish_leaves (I := I) s
    cases outcome : s.doFinish with
    | error e => trivial
    | ok s' =>
      rw [outcome] at left
      exact .inr left
  have none_out := live.none_out
  unfold handle
  cases event with
  | start => exact ends (start_ends lib (none_out (by simp [start rfl])))
  | publish item exposeHeaders =>
    exact ends (publish_ends lib (fun holding => none_out (by simp [holding]))
      (kind item exposeHeaders rfl) exposeHeaders)
  | update => exact .inl (update_moves s .low).ends
  | actionRuns => exact .inl (doUpdate_moves s).ends
  | filtersFinish result =>
    obtain ⟨qi, out⟩ := Option.ne_none_iff_exists'.mp (filtersFinish result rfl)
    obtain ⟨sending, first⟩ := live.agrees qi out
    refine ends (messageFiltersFinished_ends lib ?_ result)
    intro other is
    cases first.symm.trans is
    exact member.checked qi out sending
  | timerTimeout => exact .inl (timerTimeout_moves lib s).ends
  | retryTimeout =>
    have fired : Moves I s { s with retryTimer := false } := Moves.aside rfl
    exact .inl (fired.trans (requestNextLink_moves _)).ends
  | bytesWritten reqFinished =>
    cases reqFinished with
    | false => exact .inl unchanged.ends
    | true => exact leaves
  | writeBytesChanged => exact ends (writeBytesChanged_ends lib none_out)
  | reqError => exact leaves
  | reqPaused => exact leaves
  | outReqReadyRead =>
    exact ends (outReqReadyRead_ends lib live.fine fun proxying => none_out (by simp [proxying]))
  | outReqError => exact ends (outReqError_ends lib s)
  | deferredError =>
    have taken : Moves I s { s with deferred := s.deferred - 1 } := Moves.aside rfl
    exact .inl (taken.trans (doError_moves lib _ s.errorMessage)).ends
  | delete => exact absurd (possible_delete can) (by simp [live.running])

structure Shut (s : Session) : Prop where
  fine : s.core.Fine
  state : s.state = .closing ∨ s.state = .sendingGone
  queue : s.publishQueue = []
  running : s.finished = false

theorem handle_shut (shut : Shut s)
    (can : s.possible (event, answers) = true) (ran : handle lib s event = .ok s') :
    s' = s ∨ s.doFinish = .ok s' ∨
    0 < s.deferred ∧ s' = doError lib { s with deferred := s.deferred - 1 } ∨
    s.state = .sendingGone ∧
      (s' = { s with haveOutReqHeaders := true } ∨ s' = s.cleanupOutReq.finish ∨
      s' = { s with haveOutReqHeaders := true }.cleanupOutReq.finish) := by
  obtain ⟨start, actionRuns, filtersFinish, timerTimeout, retryTimeout, outReq, deferred⟩ :=
    possible_iff can
  have closing : s.core.isClosing := by
    rcases shut.state with closed | gone
    · exact .inl closed
    · exact .inr (.inl gone)
  obtain ⟨timer, retry, pending, no_request⟩ := shut.fine.quiet closing
  have elsewhere : s.state ≠ .sendingQueue ∧ s.state ≠ .holding ∧ s.state ≠ .waitingToUpdate ∧
      s.state ≠ .proxying ∧ s.state ≠ .notStarted := by
    rcases shut.state with state | state <;> simp [state]
  have gone : s.outReq = true → s.state = .sendingGone := by
    intro requested
    rcases shut.state with closed | gone
    · exact absurd (requested.symm.trans (no_request closed)) (by simp)
    · exact gone
  unfold handle at ran
  cases event with
  | start => exact absurd (start rfl) elsewhere.2.2.2.2
  | publish item exposeHeaders =>
    unfold publish at ran
    simp only [elsewhere, or_self, ↓reduceIte] at ran
    split at ran
    · split at ran
      · cases ran
      · cases ran
        exact .inl rfl
    · cases ran
      exact .inl rfl
    · cases ran
      exact .inl rfl
  | update =>
    simp only [update_shut shut.state, Except.ok.injEq] at ran
    exact .inl ran.symm
  | actionRuns => exact absurd ((actionRuns rfl).symm.trans pending) (by simp)
  | filtersFinish result =>
    simp only [messageFiltersFinished, filtersFinished, shut.queue, bind, Except.bind] at ran
    cases ran
  | timerTimeout => exact absurd ((timerTimeout rfl).symm.trans timer) (by simp)
  | retryTimeout => exact absurd ((retryTimeout rfl).symm.trans retry) (by simp)
  | bytesWritten reqFinished =>
    cases reqFinished with
    | false =>
      cases ran
      exact .inl rfl
    | true => exact .inr (.inl ran)
  | writeBytesChanged =>
    simp only [writeBytesChanged_shut lib shut.state, Except.ok.injEq] at ran
    exact .inl ran.symm
  | reqError => exact .inr (.inl ran)
  | reqPaused => exact .inr (.inl ran)
  | outReqReadyRead =>
    have requested : s.outReq = true := outReq (.inl rfl)
    have state := gone requested
    change s.outReqReadyRead lib = .ok s' at ran
    unfold outReqReadyRead at ran
    split at ran
    · rcases tryProcessOutReq_gone lib requested state with waits | ends
      · cases waits.symm.trans ran
        exact .inl rfl
      · cases ends.symm.trans ran
        exact .inr (.inr (.inr ⟨state, .inr (.inl rfl)⟩))
    · simp only [elsewhere, ↓reduceIte] at ran
      rcases tryProcessOutReq_gone lib (s := { s with haveOutReqHeaders := true }) requested
        state with waits | ends
      · cases waits.symm.trans ran
        exact .inr (.inr (.inr ⟨state, .inl rfl⟩))
      · cases ends.symm.trans ran
        exact .inr (.inr (.inr ⟨state, .inr (.inr rfl)⟩))
  | outReqError =>
    have state := gone (outReq (.inr rfl))
    cases (outReqError_gone lib state).symm.trans ran
    exact .inr (.inr (.inr ⟨state, .inr (.inl rfl)⟩))
  | deferredError =>
    cases ran
    exact .inr (.inr (.inl ⟨deferred rfl, rfl⟩))
  | delete => exact absurd (possible_delete can) (by simp [shut.running])

def Reports (I : Item → Prop) (s s' : Session) : Prop :=
  ∃ new, Logs I s s' new ∧ ∀ item written, .breakOff item written ∈ new → Recovers s' written

theorem Unmoved.reports (unmoved : Unmoved s s') : Reports I s s' :=
  ⟨[], unmoved.logs, fun _ _ there => by cases there⟩

theorem Unmoved.then_reports (unmoved : Unmoved s s₁) (reports : Reports I s₁ s₂) :
    Reports I s s₂ := by
  obtain ⟨new, logs, recovers⟩ := reports
  exact ⟨new, unmoved.logs.trans logs, recovers⟩

theorem Leaves.reports (leaves : Leaves I s s') : Reports I s s' := by
  obtain ⟨-, new, logs, plain⟩ := leaves
  exact ⟨new, logs, fun item written there => absurd there (plain item written)⟩

/-- A session in its channels, one that closes under an outstanding filter stack, or
    one that has left. -/
inductive Phase (I : Item → Prop) (s : Session) : Prop where
  | member (member : Member I s) (live : Live s)
  | doomed (member : Member I s) (shut : Shut s)
  | gone (gone : Gone s) (fine : s.core.Fine)

theorem doFinish_phase (fine : s.core.Fine) :
    Yields (fun s' => Phase I s' ∧ Reports I s s') s.doFinish := by
  have leaves := doFinish_leaves (I := I) s
  have over_ := doFinish_over fine
  cases outcome : s.doFinish with
  | error e => trivial
  | ok s' =>
    rw [outcome] at leaves over_
    exact ⟨.gone leaves.1 over_.fine, leaves.reports⟩

theorem disturbed_phase (member : Member I s) (live : Live s) (drops : s.cancels event = true) :
    Yields (fun s' => Phase I s' ∧ Reports I s s') (handle lib s event) := by
  unfold handle
  cases event with
  | timerTimeout =>
    have responds : s.instruct.holdMode = .responseHold := of_decide_eq_true drops
    obtain ⟨member', new, logs, plain⟩ := timerTimeout_moves lib s member
    have closed : Closed s (s.timerTimeout lib) := by
      have stopped : Core.Fine (core { s with timer := false }) :=
        ⟨live.fine.mode, live.fine.waiting, live.fine.linked, live.fine.deferred,
          fun closing => ⟨rfl, (live.fine.quiet closing).2⟩⟩
      obtain ⟨fine, state, queue, filters, process, finished⟩ :=
        respond_closed lib stopped s.instruct.response
      simp only [timerTimeout, responds]
      exact ⟨fine, state, queue, filters, process, finished⟩
    refine ⟨.doomed member' ⟨closed.fine, .inl closed.state, closed.queue,
      closed.finished.trans live.running⟩, new, logs, ?_⟩
    intro item written there
    exact absurd there (plain item written)
  | bytesWritten reqFinished =>
    cases reqFinished with
    | false => cases drops
    | true => exact doFinish_phase live.fine
  | reqError => exact doFinish_phase live.fine
  | reqPaused => exact doFinish_phase live.fine
  | _ => cases drops

theorem doomed_phase (member : Member I s) (shut : Shut s)
    (can : s.possible (event, answers) = true) (ran : handle lib s event = .ok s') : Phase I s' ∧
    Reports I s s' := by
  rcases handle_shut lib shut can ran with rfl | finishes | ⟨-, rfl⟩ | ⟨gone, -⟩
  · exact ⟨.doomed member shut, Unmoved.reports ⟨rfl, rfl, rfl, rfl, rfl⟩⟩
  · have phase := doFinish_phase (I := I) shut.fine
    rw [finishes] at phase
    exact phase
  · have taken : Moves I s { s with deferred := s.deferred - 1 } := Moves.aside rfl
    obtain ⟨member', new, logs, plain⟩ := taken.trans (doError_moves lib _ s.errorMessage) member
    have fine : Core.Fine (core { s with deferred := s.deferred - 1 }) :=
      ⟨shut.fine.mode, shut.fine.waiting, shut.fine.linked,
        fun put_off => shut.fine.deferred (Nat.lt_of_lt_of_le put_off (Nat.sub_le ..)),
          shut.fine.quiet⟩
    have closed := doError_closed lib fine
    refine ⟨.doomed member' ⟨closed.fine, .inl closed.state, closed.queue,
      closed.finished.trans shut.running⟩, new, logs, ?_⟩
    intro item written there
    exact absurd there (plain item written)
  · exact absurd gone (left_false.mp member.here).1

theorem gone_phase (gone : Gone s) (fine : s.core.Fine)
    (can : s.possible (event, answers) = true) (only_delete : s.finished = true → event = .delete)
    (ran : handle lib s event = .ok s') : Phase I s' ∧ Reports I s s' := by
  have unmoved : ∀ {s₁ : Session}, Unmoved s s₁ → s₁.core = s.core →
      s₁.publishQueue = s.publishQueue → Phase I s₁ ∧ Reports I s s₁ := by
    intro s₁ same core queue
    refine ⟨.gone ⟨same.left.trans gone.left, queue.trans gone.queue, ?_⟩
      (by rw [core]; exact fine), same.reports⟩
    rw [show s₁.state = s.state from congrArg Core.state core,
      show s₁.finished = s.finished from congrArg Core.finished core,
      show s₁.outZhttp = s.outZhttp from congrArg Core.outZhttp core]
    exact gone.manager
  cases finished : s.finished with
  | true =>
    cases only_delete finished
    cases ran
    refine ⟨.gone ⟨gone.left, gone.queue, gone.manager⟩ ⟨fine.mode, fine.waiting, fine.linked, ?_,
      fine.quiet⟩, Unmoved.reports ⟨rfl, rfl, rfl, rfl, rfl⟩⟩
    intro put_off
    exact absurd put_off (Nat.lt_irrefl 0)
  | false =>
    have state : s.state = .sendingGone := by
      have left := gone.left
      simpa [left, finished, Session.left] using left
    rcases handle_shut lib ⟨fine, .inr state, gone.queue, finished⟩ can ran with
      rfl | finishes | ⟨put_off, -⟩ | ⟨-, rfl | rfl | rfl⟩
    · exact unmoved ⟨rfl, rfl, rfl, rfl, rfl⟩ rfl rfl
    · have phase := doFinish_phase (I := I) fine
      rw [finishes] at phase
      exact phase
    · exact absurd ((gone.manager state finished).symm.trans (fine.deferred put_off).1) (by simp)
    · exact unmoved ⟨rfl, rfl, rfl, rfl, rfl⟩ rfl rfl
    · have leaves := finish_leaves (I := I) (s := s.cleanupOutReq) gone.left
      have cleaned : Unmoved s s.cleanupOutReq := ⟨rfl, rfl, rfl, rfl, rfl⟩
      exact ⟨.gone leaves.1 (finish_fine (cleanupOutReq_fine fine)),
        cleaned.then_reports leaves.reports⟩
    · have leaves :=
        finish_leaves (I := I) (s := { s with haveOutReqHeaders := true }.cleanupOutReq) gone.left
      have cleaned : Unmoved s { s with haveOutReqHeaders := true }.cleanupOutReq :=
        ⟨rfl, rfl, rfl, rfl, rfl⟩
      exact ⟨.gone leaves.1 (finish_fine (cleanupOutReq_fine fine)),
        cleaned.then_reports leaves.reports⟩

theorem handle_phase (phase : Phase I s) (kind : event.Publishes I)
    (can : s.possible (event, answers) = true) (only_delete : s.finished = true → event = .delete)
    (ran : handle lib s event = .ok s') : Phase I s' ∧ Reports I s s' := by
  cases phase with
  | member member live =>
    by_cases disturbed : s.messageFilters ≠ none ∧ s.cancels event = true
    · have phase := disturbed_phase lib member live disturbed.2
      rw [ran] at phase
      exact phase
    · have cancels : s.messageFilters ≠ none → s.cancels event = false := by
        intro out
        exact Bool.eq_false_iff.mpr fun drops => disturbed ⟨out, drops⟩
      have returns := @step_returns lib _ live.toSound (event, s.answers) can cancels only_delete
      have ends := handle_ends lib member live can kind
      rw [show step lib s (event, s.answers) = handle lib s event from rfl, ran] at returns
      rw [ran] at ends
      rcases ends with ends | leaves
      · obtain ⟨member', reports⟩ := ends member
        exact ⟨.member member' ⟨returns, (left_false.mp member'.here).2⟩, reports⟩
      · exact ⟨.gone leaves.1 returns.fine, leaves.reports⟩
  | doomed member shut => exact doomed_phase lib member shut can ran
  | gone gone fine => exact gone_phase lib gone fine can only_delete ran

theorem Phase.answered (phase : Phase I s) (answers : Answers) : Phase I { s with answers } := by
  cases phase with
  | member member live =>
    exact .member ⟨member.here, member.queued, member.unique, member.linked, member.checked⟩
      ⟨⟨live.fine, live.agrees, live.idle⟩, live.running⟩
  | doomed member shut =>
    exact .doomed ⟨member.here, member.queued, member.unique, member.linked, member.checked⟩
      ⟨shut.fine, shut.state, shut.queue, shut.running⟩
  | gone gone fine => exact .gone ⟨gone.left, gone.queue, gone.manager⟩ fine

theorem step_phase (phase : Phase I s) {event : SessionEvent × Answers} (kind : event.1.Publishes I)
    (can : s.reaches event = true)
    (took : stepped lib s event = some s') : Phase I s' ∧ Reports I s s' := by
  obtain ⟨possible, only_delete⟩ := reaches_iff.mp can
  have ran : handle lib { s with answers := event.2 } event.1 = .ok s' := by
    cases outcome : step lib s event with
    | error e => simp [stepped, outcome, Except.toOption] at took
    | ok s₁ =>
      simp only [stepped, outcome, Except.toOption, Option.some.injEq] at took
      rw [← took, ← outcome]
      rfl
  obtain ⟨phase', reports⟩ :=
    handle_phase lib (phase.answered event.2) kind possible only_delete ran
  have answered : Unmoved s { s with answers := event.2 } := ⟨rfl, rfl, rfl, rfl, rfl⟩
  exact ⟨phase', answered.then_reports reports⟩

theorem new_phase (adata : AcceptData) (instruct : Instruct) (connectionSubscriptionMax : Nat)
    (outZhttp : Bool) (currentUri nextUri goneUri : String) (answers : Answers) :
    Phase I (new adata instruct connectionSubscriptionMax outZhttp currentUri nextUri goneUri
      answers) :=
  .member ⟨rfl, List.forall_mem_nil _, List.nodup_nil, linked_elsewhere (by simp [new])
    (by simp [new]) (by simp [new]), checked_elsewhere (by simp [new])⟩ ⟨new_sound .., rfl⟩

theorem run_phase (phase : Phase I s) {events : List (SessionEvent × Answers)}
    (kind : ∀ event ∈ events, event.1.Publishes I) (along : Runs.along
    (stepped lib) reaches s events = true) (ran : Runs.run (stepped lib) s events = some s') :
    Phase I s' ∧ ∃ new, Logs I s s' new := by
  induction events generalizing s with
  | nil =>
    cases ran
    exact ⟨phase, [], Unmoved.logs ⟨rfl, rfl, rfl, rfl, rfl⟩⟩
  | cons event events ih =>
    simp only [Runs.along, Bool.and_eq_true] at along
    obtain ⟨s₁, took, ran'⟩ := Option.bind_eq_some_iff.mp ran
    rw [took] at along
    obtain ⟨phase₁, new₁, logs₁, -⟩ :=
      step_phase lib phase (kind event List.mem_cons_self) along.1 took
    obtain ⟨phase', new₂, logs₂⟩ :=
      ih phase₁ (fun event mem => kind event (List.mem_cons_of_mem _ mem)) along.2 ran'
    exact ⟨phase', new₁ ++ new₂, logs₁.trans logs₂⟩

end Session
end PushpinHttpSession
