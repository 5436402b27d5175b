import Pushpin.Connmgr.StreamHandles

namespace PushpinConnmgr
open PushpinRingBuffer Slabs Runs

namespace SessionData

def Inverse (d : SessionData) : Prop :=
  ∀ key itemKey, d.itemsByKey.lookup key = some itemKey ↔ ∃ item, d.items.get? itemKey = some item ∧
    item.key = key

theorem new_inverse (capacity : Nat) : (new capacity).Inverse := by
  intro key itemKey
  constructor
  · intro found
    cases found
  · rintro ⟨item, found, _⟩
    rw [new, Slab.get?_withCapacity] at found
    cases found

theorem slab_remove_insert {s : Slab SessionItem} {itemKey : Nat} (vacant : s.Vacant itemKey)
    (item : SessionItem) : (s.insert itemKey item).remove itemKey = s := by
  obtain ⟨inside, empty⟩ := vacant
  have unused : s.entries[itemKey]? = some none := by
    rw [Slab.get?, List.getElem?_eq_getElem inside, Option.join_some] at empty
    rw [List.getElem?_eq_getElem inside, empty]
  have same : s.entries.set itemKey none = s.entries := by
    apply List.ext_getElem?
    intro i
    rw [List.getElem?_set]
    split_ifs with own range
    · rw [← own, unused]
    · exact absurd inside range
    · rfl
  simp only [Slab.insert, Slab.remove, List.set_set, same]

variable {d : SessionData}

theorem add_ok {d' : SessionData} (inverse : d.Inverse) {itemKey : Nat} {key : SessionKey}
    {handleIndex : Nat} (vacant : d.items.len ≠ d.items.capacity → d.items.Vacant itemKey)
    (added : d.add itemKey key handleIndex = .ok d') :
    d'.Inverse ∧ d'.remove itemKey = some d ∧
      ∀ i, d'.items.get? i = if i = itemKey then some ⟨key, handleIndex⟩ else d.items.get? i := by
  unfold add at added
  split_ifs at added with full held
  cases added
  have free := vacant full
  have absent : d.itemsByKey.lookup key = none := AList.lookup_eq_none.mpr held
  refine ⟨?_, ?_, fun i => Slab.get?_insert free.1 _ i⟩
  · intro k i
    simp only
    rw [Slab.get?_insert free.1]
    by_cases own : k = key
    · subst own
      rw [AList.lookup_insert]
      constructor
      · intro eq
        cases eq
        exact ⟨_, if_pos rfl, rfl⟩
      · rintro ⟨item, found, name⟩
        split_ifs at found with slot
        · rw [slot]
        · have known := (inverse k i).mpr ⟨item, found, name⟩
          rw [absent] at known
          cases known
    · rw [AList.lookup_insert_ne own, inverse k i]
      constructor
      · rintro ⟨item, found, name⟩
        refine ⟨item, ?_, name⟩
        rw [if_neg, found]
        rintro rfl
        rw [free.2] at found
        cases found
      · rintro ⟨item, found, name⟩
        split_ifs at found with slot
        · cases found
          exact absurd name.symm own
        · exact ⟨item, found, name⟩
  · have here :
        (d.items.insert itemKey ⟨key, handleIndex⟩).get? itemKey = some ⟨key, handleIndex⟩ := by
      rw [Slab.get?_insert free.1, if_pos rfl]
    have forgotten : (d.itemsByKey.insert key itemKey).erase key = d.itemsByKey := by
      apply AList.ext
      show List.kerase key (d.itemsByKey.insert key itemKey).entries = _
      simp [List.kerase_of_notMem_keys held]
    simp only [remove, here, Option.map_some, slab_remove_insert free, forgotten]

theorem remove_spec (inverse : d.Inverse) {itemKey : Nat} {item : SessionItem}
    (found : d.items.get? itemKey = some item) :
    ∃ d', d.remove itemKey = some d' ∧ d'.Inverse ∧
      ∀ i, d'.items.get? i = if i = itemKey then none else d.items.get? i := by
  refine ⟨⟨d.items.remove itemKey,
    d.itemsByKey.erase item.key⟩, by rw [remove, found, Option.map_some], ?_,
    Slab.get?_remove d.items itemKey⟩
  intro key i
  simp only
  rw [Slab.get?_remove]
  by_cases own : key = item.key
  · subst own
    rw [AList.lookup_erase]
    constructor
    · intro eq
      cases eq
    · rintro ⟨other, at_i, name⟩
      split_ifs at at_i with slot
      have one := (inverse item.key i).mpr ⟨other, at_i, name⟩
      have two := (inverse item.key itemKey).mpr ⟨item, found, rfl⟩
      exact absurd (Option.some.inj (one.symm.trans two)) slot
  · rw [AList.lookup_erase_ne own, inverse key i]
    constructor
    · rintro ⟨other, at_i, name⟩
      refine ⟨other, ?_, name⟩
      rw [if_neg, at_i]
      rintro rfl
      rw [found] at at_i
      cases at_i
      exact own name.symm
    · rintro ⟨other, at_i, name⟩
      split_ifs at at_i with slot
      exact ⟨other, at_i, name⟩

theorem get_eq_ownerOf (inverse : d.Inverse) (key : SessionKey) :
    d.get key = some (d.ownerOf key) := by
  cases owner : d.ownerOf key with
  | none =>
    have nobody := List.findSome?_eq_none_iff.mp owner
    have absent : d.itemsByKey.lookup key = none := by
      cases known : d.itemsByKey.lookup key with
      | none => rfl
      | some itemKey =>
        obtain ⟨item, found, name⟩ := (inverse key itemKey).mp known
        have mem : some item ∈ d.items.entries := by
          rw [Slab.get?, Option.join_eq_some_iff] at found
          exact List.mem_of_getElem? found
        have wrong := nobody _ mem
        rw [Option.bind_some, if_pos name] at wrong
        cases wrong
    rw [get, absent]
  | some handleIndex =>
    obtain ⟨e, mem, eq⟩ := List.exists_of_findSome?_eq_some owner
    obtain ⟨item, rfl, matches_⟩ := Option.bind_eq_some_iff.mp eq
    split_ifs at matches_ with name
    cases matches_
    obtain ⟨i, at_i⟩ := List.getElem?_of_mem mem
    have found : d.items.get? i = some item := by rw [Slab.get?, at_i, Option.join_some]
    rw [get, (inverse key i).mpr ⟨item, found, name⟩]
    simp only [found, Option.map_some]

theorem ownerOf_eq_some {key : SessionKey} {handleIndex : Nat}
    (owner : d.ownerOf key = some handleIndex) :
    ∃ i item, d.items.get? i = some item ∧ item.key = key ∧ item.handleIndex = handleIndex := by
  obtain ⟨e, mem, eq⟩ := List.exists_of_findSome?_eq_some owner
  obtain ⟨item, rfl, matches_⟩ := Option.bind_eq_some_iff.mp eq
  split_ifs at matches_ with name
  cases matches_
  obtain ⟨i, at_i⟩ := List.getElem?_of_mem mem
  exact ⟨i, item, by rw [Slab.get?, at_i, Option.join_some], name, rfl⟩

end SessionData

/-- The packet went to no handle twice, to none without a listed session, and to
    each that had one and is still there. -/
structure Finished.Delivered (f : Finished) : Prop where
  once : f.sent.Nodup
  owners : ∀ h ∈ f.sent, h ∈ f.owned
  reached : ∀ h ∈ f.owned, h ∈ f.live → h ∈ f.sent

namespace StreamHandles

def Progress (s : StreamHandles) (c : DirectCall) : Prop :=
  match c.phase with
  | .looking ids => c.sent = [] ∧ ∀ id ∈ ids, id.length ≤ reqIdMax
  | .sending n => c.sent.Nodup ∧ (∀ h ∈ c.sent, h < n ∧ h ∈ c.owned) ∧
    ∀ h, h < n → h ∈ c.owned → s.isConnected h = true → h ∈ c.sent

structure Calling (s : StreamHandles) (c : DirectCall) : Prop where
  size : c.indexes.length = s.nodes.capacity
  marks : ∀ h, c.indexes[h]?.getD false = true ↔ h ∈ c.owned
  progress : s.Progress c

structure Sound (s : StreamHandles) : Prop where
  inverse : s.sessions.Inverse
  inside : ∀ i item, s.sessions.items.get? i = some item → item.handleIndex < s.nodes.capacity
  listed : ∀ nkey ∈ s.list, ∃ p, s.nodes.get? nkey = some p
  valid : ∀ nkey, s.isConnected nkey = true → s.isValid nkey = true
  calling : ∀ c, s.call = some c → s.Calling c
  finished : ∀ f ∈ s.finished, f.Delivered

theorem new_sound (capacity sessionsCapacity : Nat) : (new capacity sessionsCapacity).Sound := by
  constructor
  · exact SessionData.new_inverse sessionsCapacity
  · intro i item found
    rw [new, SessionData.new, Slab.get?_withCapacity] at found
    cases found
  · intro nkey mem
    cases mem
  · intro nkey connected
    rw [isConnected, new, Slab.get?_withCapacity] at connected
    cases connected
  · intro c calling
    cases calling
  · intro f mem
    cases mem

variable {s : StreamHandles} {c : DirectCall}

theorem Calling.of_nodes {s' : StreamHandles} (calling : s.Calling c)
    (size : s'.nodes.capacity = s.nodes.capacity)
    (fewer : ∀ h, s'.isConnected h = true → s.isConnected h = true) : s'.Calling c := by
  refine ⟨calling.size.trans size.symm, calling.marks, ?_⟩
  have progress := calling.progress
  unfold Progress at progress ⊢
  cases phase : c.phase with
  | looking ids =>
    rw [phase] at progress
    exact progress
  | sending n =>
    rw [phase] at progress
    obtain ⟨once, owners, reached⟩ := progress
    exact ⟨once, owners, fun h below owned connected => reached h below owned (fewer h connected)⟩

theorem isConnected_eq {h : Nat} :
    s.isConnected h = true ↔ ∃ p, s.nodes.get? h = some p ∧ p.connected = true := by
  rw [isConnected]
  cases s.nodes.get? h with
  | none => simp
  | some p => simp

theorem mem_live {h : Nat} : h ∈ s.live ↔ s.isConnected h = true := by
  simp only [live, List.mem_filter, List.mem_range, and_iff_right_iff_imp]
  intro connected
  obtain ⟨p, found, _⟩ := isConnected_eq.mp connected
  exact Slab.lt_capacity_of_get? found

variable {nkey : Nat}

section
variable (sound : s.Sound)
include sound

theorem Sound.set_pipe {old : ServerStreamPipe}
    (found : s.nodes.get? nkey = some old) (new : ServerStreamPipe) (fewer : new.connected = true →
    old.connected = true)
    (fine : new.connected = true → new.valid = true) (flag : Bool) :
    ({ s with nodes := s.nodes.insert nkey new, needCleanup := flag } : StreamHandles).Sound := by
  have inside := Slab.lt_capacity_of_get? found
  have looked : ∀ h, (s.nodes.insert nkey new).get? h = if h = nkey then some new
      else s.nodes.get? h :=
    Slab.get?_insert inside new
  constructor
  · exact sound.inverse
  · intro i item at_i
    rw [Slab.capacity_insert]
    exact sound.inside i item at_i
  · intro h mem
    obtain ⟨p, at_h⟩ := sound.listed h mem
    simp only [looked]
    split_ifs
    · exact ⟨new, rfl⟩
    · exact ⟨p, at_h⟩
  · intro h connected
    obtain ⟨p, at_h, there⟩ := isConnected_eq.mp connected
    simp only [isValid, looked] at at_h ⊢
    split_ifs at at_h ⊢ with own
    · cases at_h
      exact fine there
    · exact sound.valid h (isConnected_eq.mpr ⟨p, at_h, there⟩)
  · intro c calling
    apply (sound.calling c calling).of_nodes (Slab.capacity_insert _ _ _)
    intro h connected
    obtain ⟨p, at_h, there⟩ := isConnected_eq.mp connected
    simp only [looked] at at_h
    split_ifs at at_h with own
    · cases at_h
      exact isConnected_eq.mpr ⟨old, by rw [own, found], fewer there⟩
    · exact isConnected_eq.mpr ⟨p, at_h, there⟩
  · exact sound.finished

theorem invalidate_sound (gone : s.isConnected nkey = false) : (s.invalidate nkey).Sound := by
  unfold invalidate
  cases found : s.nodes.get? nkey with
  | none => exact sound
  | some p =>
    have closed : p.connected = false := by simpa [isConnected, found] using gone
    refine sound.set_pipe found { p with valid := false } id ?_ true
    intro there
    rw [closed] at there
    cases there

theorem disconnect_sound (nkey : Nat) : (s.disconnect nkey).Sound := by
  unfold disconnect
  cases found : s.nodes.get? nkey with
  | none => exact sound
  | some p => exact sound.set_pipe found { p with connected := false } nofun nofun s.needCleanup

theorem Sound.set_sessions {sessions : SessionData} (inverse : sessions.Inverse)
    (inside : ∀ i item, sessions.items.get? i = some item → item.handleIndex < s.nodes.capacity) :
    ({ s with sessions := sessions } : StreamHandles).Sound := by
  constructor
  · exact inverse
  · exact inside
  · exact sound.listed
  · exact sound.valid
  · intro c calling
    exact (sound.calling c calling).of_nodes rfl fun _ connected => connected
  · exact sound.finished

theorem Sound.set_call (calling : s.Calling c) :
    ({ s with call := some c } : StreamHandles).Sound := by
  constructor
  · exact sound.inverse
  · exact sound.inside
  · exact sound.listed
  · exact sound.valid
  · intro c' eq
    cases eq
    exact calling.of_nodes rfl fun _ connected => connected
  · exact sound.finished

theorem finish_sound {owned sent : List Nat}
    (delivered : (Finished.mk owned sent s.live).Delivered) : (s.finish owned sent).Sound := by
  constructor
  · exact sound.inverse
  · exact sound.inside
  · exact sound.listed
  · exact sound.valid
  · intro c calling
    cases calling
  · intro f mem
    rcases List.mem_append.mp mem with old | new
    · exact sound.finished f old
    · rw [List.mem_singleton.mp new]
      exact delivered

end

theorem select_ready {ready : Nat → Bool} {list : List Nat} {skip : Nat} {before : Option Nat}
    (chosen : select ready list skip before = some nkey) : before = some nkey ∨ nkey ∈ list := by
  induction list generalizing skip before with
  | nil => exact Or.inl chosen
  | cons first rest ih =>
    have now : ∀ picked, (if ready first then some first else before) = some picked →
        before = some picked ∨ picked ∈ first :: rest := by
      intro picked eq
      split_ifs at eq
      · cases eq
        exact Or.inr List.mem_cons_self
      · exact Or.inl eq
    simp only [select] at chosen
    generalize (if ready first then some first else before) = selected at chosen now
    split_ifs at chosen with more is_some
    · rcases ih chosen with early | late
      · exact now nkey early
      · exact Or.inr (List.mem_cons_of_mem first late)
    · exact now nkey chosen
    · rcases ih chosen with early | late
      · exact now nkey early
      · exact Or.inr (List.mem_cons_of_mem first late)

section
variable (sound : s.Sound)
include sound

theorem handOver_spec {itemKey : Nat} (full : Bool) (key : SessionKey)
    (listed : nkey ∈ s.list)
    (vacant : s.sessions.items.len ≠ s.sessions.items.capacity → s.sessions.items.Vacant itemKey) :
    ∃ s' result, s.handOver itemKey full key nkey = some (s', result) ∧ s'.Sound ∧
      ∀ e, result = .error e → s'.sessions = s.sessions := by
  unfold handOver
  cases added : s.sessions.add itemKey key nkey with
  | error e =>
    cases e with
    | full => exact ⟨_, _, rfl, sound, fun _ _ => rfl⟩
    | exists_ => exact ⟨_, _, rfl, sound, fun _ _ => rfl⟩
  | ok sessions =>
    obtain ⟨inverse, undone, looked⟩ := SessionData.add_ok sound.inverse vacant added
    simp only [undone, Option.map_some]
    by_cases gone : s.isConnected nkey = false
    · rw [if_pos (by rw [gone, Bool.not_false])]
      refine ⟨_, _, rfl, invalidate_sound sound gone, ?_⟩
      intro e _
      unfold invalidate
      split <;> rfl
    · rw [if_neg (by simpa using gone)]
      split_ifs
      · exact ⟨_, _, rfl, sound, fun _ _ => rfl⟩
      · refine ⟨_, _, rfl, sound.set_sessions inverse ?_, nofun⟩
        intro i item at_i
        rw [looked] at at_i
        split_ifs at at_i with own
        · cases at_i
          obtain ⟨p, at_nkey⟩ := sound.listed nkey listed
          exact Slab.lt_capacity_of_get? at_nkey
        · exact sound.inside i item at_i

theorem sendAny_spec (writable : Nat → Bool) {itemKey : Nat} (full : Bool)
    (sender : List Byte) (ids : List (List Byte))
    (vacant : s.sessions.items.len ≠ s.sessions.items.capacity → s.sessions.items.Vacant itemKey) :
    ∃ s' result, s.sendAny writable itemKey full sender ids = some (s', result) ∧ s'.Sound ∧
      ∀ e, result = .error e → s'.sessions = s.sessions := by
  unfold sendAny
  split
  · rename_i addr id _ _
    by_cases empty : s.nodes.isEmpty = true
    · rw [if_pos empty]
      exact ⟨s, _, rfl, sound, fun _ _ => rfl⟩
    · have turned :
          ({ s with sendIndex := (s.sendIndex + 1) % s.nodes.len } : StreamHandles).Sound :=
        ⟨sound.inverse, sound.inside, sound.listed, sound.valid,
          fun c calling => (sound.calling c calling).of_nodes rfl fun _ connected => connected,
            sound.finished⟩
      rw [if_neg empty]
      simp only
      split
      · exact ⟨_, _, rfl, turned, fun _ _ => rfl⟩
      · rename_i nkey chosen
        have listed : nkey ∈ s.list := by
          rcases select_ready chosen with none | mem
          · cases none
          · exact mem
        exact handOver_spec turned full ⟨addr, id⟩ listed vacant
  · exact ⟨s, _, rfl, sound, fun _ _ => rfl⟩

theorem beginDirect_sound (sender : List Byte) {ids : List (List Byte)}
    (short : ∀ id ∈ ids, id.length ≤ reqIdMax) : (s.beginDirect sender ids).Sound := by
  unfold beginDirect
  split
  · exact finish_sound sound ⟨List.nodup_nil, nofun, nofun⟩
  · rename_i addr _
    split_ifs with empty
    · refine finish_sound sound ⟨List.nodup_nil, nofun, ?_⟩
      intro h _ here
      obtain ⟨p, found, _⟩ := isConnected_eq.mp (mem_live.mp here)
      have none := (Slab.len_eq_zero_iff s.nodes).mp (by simpa [Slab.isEmpty] using empty) h
      rw [none] at found
      cases found
    · refine sound.set_call ⟨List.length_replicate, ?_, rfl, short⟩
      intro h
      simp only [List.getElem?_replicate]
      split_ifs <;> simp

theorem look_sound (calling : s.call = some c)
    {ids : List (List Byte)} (phase : c.phase = .looking ids) : ∃ s', s.look c ids = some s' ∧
    s'.Sound := by
  obtain ⟨size, marks, progress⟩ := sound.calling c calling
  rw [Progress, phase] at progress
  obtain ⟨none_sent, short⟩ := progress
  cases ids with
  | nil =>
    refine ⟨_, rfl, sound.set_call ⟨size, marks, ?_⟩⟩
    simp only [Progress, none_sent]
    exact ⟨List.nodup_nil, nofun, fun h below => absurd below (Nat.not_lt_zero h)⟩
  | cons id ids =>
    have fits := short id List.mem_cons_self
    have later : ∀ id ∈ ids, id.length ≤ reqIdMax :=
      fun id mem => short id (List.mem_cons_of_mem _ mem)
    have reqId : reqIdOf id = some ⟨id, fits⟩ := dif_pos fits
    simp only [look, reqId, SessionData.get_eq_ownerOf sound.inverse, Option.bind_some]
    have owners :
        s.ownersOf c.sender [id] = (s.sessions.ownerOf ⟨c.sender, ⟨id, fits⟩⟩).toList := by
      rw [ownersOf, List.filterMap_cons, reqId, Option.bind_some]
      cases s.sessions.ownerOf ⟨c.sender, ⟨id, fits⟩⟩ <;> rfl
    rw [owners]
    cases owner : s.sessions.ownerOf ⟨c.sender, ⟨id, fits⟩⟩ with
    | none =>
      refine ⟨_, rfl, sound.set_call ⟨size, ?_, none_sent, later⟩⟩
      intro h
      rw [Option.toList_none, List.append_nil, marks]
    | some nkey =>
      obtain ⟨i, item, found, _, at_nkey⟩ := SessionData.ownerOf_eq_some owner
      have inside : nkey < c.indexes.length := by
        rw [size, ← at_nkey]
        exact sound.inside i item found
      simp only [if_pos inside]
      refine ⟨_, rfl, sound.set_call ⟨by rw [List.length_set, size], ?_, none_sent, later⟩⟩
      intro h
      rw [Option.toList_some, List.mem_append, List.mem_singleton, ← marks, List.getElem?_set]
      by_cases own : nkey = h
      · simp [own, own ▸ inside]
      · simp [own, Ne.symm own]

theorem deliver_sound (calling : s.call = some c)
    (phase : c.phase = .sending nkey) : (s.deliver c nkey).Sound := by
  have call := sound.calling c calling
  have progress := call.progress
  rw [Progress, phase] at progress
  obtain ⟨once, owners, reached⟩ := progress
  unfold deliver
  by_cases inside : nkey < c.indexes.length
  · rw [if_pos inside]
    -- a handle that is skipped has no listed session or is gone
    have skip : (nkey ∈ c.owned → s.isConnected nkey = false) →
        s.Calling { c with phase := .sending (nkey + 1) } := by
      intro lacks
      refine ⟨call.size, call.marks, once, ?_, ?_⟩
      · intro h mem
        exact ⟨Nat.lt_succ_of_lt (owners h mem).1, (owners h mem).2⟩
      · intro h below owned connected
        rcases Nat.lt_succ_iff_lt_or_eq.mp below with earlier | rfl
        · exact reached h earlier owned connected
        · rw [lacks owned] at connected
          cases connected
    by_cases chosen : (s.isValid nkey && c.indexes[nkey]?.getD false) = true
    · rw [if_pos chosen]
      obtain ⟨_, marked⟩ := Bool.and_eq_true_iff.mp chosen
      have owned := (call.marks nkey).mp marked
      by_cases connected : s.isConnected nkey = true
      · rw [if_pos connected]
        refine sound.set_call ⟨call.size, call.marks, ?_, ?_, ?_⟩
        · refine List.Nodup.append once (List.nodup_singleton nkey) ?_
          intro h mem own
          rw [List.mem_singleton.mp own] at mem
          exact absurd (owners nkey mem).1 (Nat.lt_irrefl nkey)
        · intro h mem
          rcases List.mem_append.mp mem with old | new
          · exact ⟨Nat.lt_succ_of_lt (owners h old).1, (owners h old).2⟩
          · rw [List.mem_singleton.mp new]
            exact ⟨Nat.lt_succ_self nkey, owned⟩
        · intro h below owned' connected'
          rcases Nat.lt_succ_iff_lt_or_eq.mp below with earlier | rfl
          · exact List.mem_append_left _ (reached h earlier owned' connected')
          · exact List.mem_append_right _ (List.mem_singleton.mpr rfl)
      · rw [if_neg connected]
        have gone : s.isConnected nkey = false := by simpa using connected
        have called := skip fun _ => gone
        have marked_sound := sound.set_call called
        have invalid := invalidate_sound marked_sound (show _ = false from gone)
        have same : ({ s.invalidate nkey with
          call := some { c with phase := .sending (nkey + 1) } } : StreamHandles) =
            ({ s with call := some { c with phase := .sending (nkey + 1) } } :
              StreamHandles).invalidate nkey := by
          unfold invalidate
          cases s.nodes.get? nkey <;> rfl
        rw [same]
        exact invalid
    · rw [if_neg chosen]
      refine sound.set_call (skip ?_)
      intro owned
      rw [(call.marks nkey).mpr owned, Bool.and_true] at chosen
      by_contra connected
      exact chosen (sound.valid nkey (by simpa using connected))
  · rw [if_neg inside]
    refine finish_sound sound ⟨once, fun h mem => (owners h mem).2, ?_⟩
    intro h owned here
    have connected := mem_live.mp here
    obtain ⟨p, found, _⟩ := isConnected_eq.mp connected
    have below := Slab.lt_capacity_of_get? found
    rw [call.size] at inside
    exact reached h (by omega) owned connected

end

theorem removeAll_get? (nkeys : List Nat) (nodes : Slab ServerStreamPipe) :
    (nkeys.foldl Slab.remove nodes).capacity = nodes.capacity ∧
      ∀ h, (nkeys.foldl Slab.remove nodes).get? h = if h ∈ nkeys then none else nodes.get? h := by
  induction nkeys generalizing nodes with
  | nil => exact ⟨rfl, fun h => by simp⟩
  | cons nkey nkeys ih =>
    obtain ⟨size, looked⟩ := ih (nodes.remove nkey)
    refine ⟨size.trans (Slab.capacity_remove nodes nkey), ?_⟩
    intro h
    rw [List.foldl_cons, looked, Slab.get?_remove]
    by_cases own : h = nkey
    · simp [own]
    · simp [own]

theorem cleanup_sound (sound : s.Sound) (idle : s.call = none) : s.cleanup.Sound := by
  obtain ⟨size, looked⟩ := removeAll_get? (s.list.filter fun nkey => !s.isValid nkey) s.nodes
  constructor
  · exact sound.inverse
  · intro i item found
    exact Nat.lt_of_lt_of_eq (sound.inside i item found) size.symm
  · intro nkey mem
    obtain ⟨listed, valid⟩ := List.mem_filter.mp mem
    obtain ⟨p, found⟩ := sound.listed nkey listed
    refine ⟨p, (looked nkey).trans ?_⟩
    rw [if_neg, found]
    intro dropped
    have invalid := (List.mem_filter.mp dropped).2
    rw [valid] at invalid
    cases invalid
  · intro h connected
    obtain ⟨p, found, there⟩ := isConnected_eq.mp connected
    have same : s.cleanup.nodes.get? h = s.nodes.get? h := by
      have at_h := (looked h).symm.trans found
      split_ifs at at_h with dropped
      exact found.trans at_h.symm
    rw [isValid, same]
    exact sound.valid h (isConnected_eq.mpr ⟨p, same ▸ found, there⟩)
  · intro c calling
    rw [show s.cleanup.call = s.call from rfl, idle] at calling
    cases calling
  · exact sound.finished

theorem add_sound (sound : s.Sound) (idle : s.call = none)
    (vacant : s.nodes.Vacant nkey) : ∃ s', s.add nkey = some s' ∧ s'.Sound := by
  have looked : ∀ h, (s.nodes.insert nkey ⟨true, true⟩).get? h = if h = nkey then some ⟨true, true⟩
      else s.nodes.get? h :=
    Slab.get?_insert vacant.1 _
  refine ⟨_, by rw [add, if_pos (Slab.vacant_len_lt vacant)], ?_⟩
  constructor
  · exact sound.inverse
  · intro i item found
    rw [Slab.capacity_insert]
    exact sound.inside i item found
  · intro h mem
    simp only [looked]
    split_ifs with own
    · exact ⟨_, rfl⟩
    · rcases List.mem_append.mp mem with old | new
      · exact sound.listed h old
      · exact absurd (List.mem_singleton.mp new) own
  · intro h connected
    obtain ⟨p, found, there⟩ := isConnected_eq.mp connected
    simp only [isValid, looked] at found ⊢
    split_ifs at found ⊢ with own
    · rfl
    · exact sound.valid h (isConnected_eq.mpr ⟨p, found, there⟩)
  · intro c calling
    rw [show ({ s with nodes := _, list := _ } : StreamHandles).call = s.call from rfl,
      idle] at calling
    cases calling
  · exact sound.finished

theorem step_sound {event : Event} (sound : s.Sound) (may : s.allowed event = true)
    (short : s.shortIds event = true) : ∃ s', s.step event = some s' ∧ s'.Sound := by
  cases event with
  | add nkey =>
    simp only [allowed, Bool.and_eq_true, Option.isNone_iff_eq_none, decide_eq_true_eq] at may
    exact add_sound sound may.1.1 may.1.2
  | sendAny writable itemKey full sender ids =>
    simp only [allowed, Bool.and_eq_true, Bool.or_eq_true, decide_eq_true_eq] at may
    obtain ⟨s', result, sent, kept, _⟩ :=
      sendAny_spec sound writable full sender ids fun room => may.2.resolve_left room
    exact ⟨s', by rw [step, sent, Option.map_some], kept⟩
  | sendDirect sender ids =>
    simp only [shortIds, List.all_eq_true, decide_eq_true_eq] at short
    exact ⟨_, rfl, beginDirect_sound sound sender short⟩
  | look =>
    cases call : s.call with
    | none => exact ⟨s, by simp only [step, call], sound⟩
    | some c =>
      cases phase : c.phase with
      | sending _ => exact ⟨s, by simp only [step, call, phase], sound⟩
      | looking ids =>
        obtain ⟨s', looked, kept⟩ := look_sound sound call phase
        exact ⟨s', by simp only [step, call, phase, looked], kept⟩
  | deliver =>
    cases call : s.call with
    | none => exact ⟨s, by simp only [step, call], sound⟩
    | some c =>
      cases phase : c.phase with
      | looking _ => exact ⟨s, by simp only [step, call, phase], sound⟩
      | sending nkey => exact ⟨_, by simp only [step, call, phase], deliver_sound sound call phase⟩
  | cleanup =>
    simp only [allowed, Option.isNone_iff_eq_none] at may
    exact ⟨_, rfl, cleanup_sound sound may⟩
  | drop itemKey =>
    obtain ⟨item, found⟩ := Option.isSome_iff_exists.mp may
    obtain ⟨sessions, removed, inverse, looked⟩ := SessionData.remove_spec sound.inverse found
    refine ⟨_, by rw [step, removed, Option.map_some], sound.set_sessions inverse ?_⟩
    intro i item at_i
    rw [looked] at at_i
    split_ifs at at_i with own
    exact sound.inside i item at_i
  | disconnect nkey => exact ⟨_, rfl, disconnect_sound sound nkey⟩

/-- Calls, session drops, lost handles and the steps of `send_direct` in any order:
    the sessions and their index are inverse, no pair of an address and an id has two
    sessions, a failed `send_any` leaves none behind, and every packet that lists no
    id of more than `REQ_ID_MAX` bytes goes once to each handle that had a listed
    session and is there, and to no other. -/
theorem packets_reach_each_owner_once (capacity sessionsCapacity : Nat) (events : List Event)
    (possible : along step allowed (new capacity sessionsCapacity) events = true)
    (short : along step shortIds (new capacity sessionsCapacity) events = true) :
    ∃ s, run step (new capacity sessionsCapacity) events = some s ∧ s.sessions.Inverse ∧
      (∀ i j a b, s.sessions.items.get? i = some a → s.sessions.items.get? j = some b →
      a.key = b.key → i = j) ∧
      (∀ f ∈ s.finished, f.Delivered) ∧
      ∀ front writable itemKey full sender ids rest,
        events = front ++ .sendAny writable itemKey full sender ids :: rest →
        ∃ before after result, run step (new capacity sessionsCapacity) front = some before ∧
          before.sendAny writable itemKey full sender ids = some (after, result) ∧
          ∀ e, result = .error e → after.sessions = before.sessions := by
  have both := along_and.mpr ⟨possible, short⟩
  have keeps : ∀ (s : StreamHandles) event, s.Sound → (s.allowed event && s.shortIds event) = true →
      ∃ next, s.step event = some next ∧ next.Sound := by
    intro s event sound passed
    obtain ⟨may, fine⟩ := Bool.and_eq_true_iff.mp passed
    exact step_sound sound may fine
  obtain ⟨s, ran, sound⟩ := run_rule Sound keeps events (new_sound capacity sessionsCapacity) both
  refine ⟨s, ran, sound.inverse, ?_, sound.finished, ?_⟩
  · intro i j a b at_i at_j same
    have one := (sound.inverse a.key i).mpr ⟨a, at_i, rfl⟩
    have two := (sound.inverse a.key j).mpr ⟨b, at_j, same.symm⟩
    exact Option.some.inj (one.symm.trans two)
  · intro front writable itemKey full sender ids rest eq
    rw [eq] at both possible
    obtain ⟨before, ran_front, sound_front⟩ :=
      run_rule Sound keeps front (new_sound capacity sessionsCapacity) (along_front both)
    have may := along_iff.mp possible front _ rest rfl before ran_front
    simp only [allowed, Bool.and_eq_true, Bool.or_eq_true, decide_eq_true_eq] at may
    obtain ⟨after, result, sent, _, unchanged⟩ :=
      sendAny_spec sound_front writable full sender ids fun room => may.2.resolve_left room
    exact ⟨before, after, result, ran_front, sent, unchanged⟩

def sharedEvents : List Event :=
  [.add 0, .add 1, .sendAny (fun _ => true) 0 false [65] [[1]],
    .sendAny (fun _ => true) 1 false [65] [[2]],
    .sendAny (fun _ => true) 2 true [65] [[3]], .sendDirect [65] [[1], [9], [2]], .look, .look,
      .look, .look, .drop 1,
    .deliver, .deliver, .deliver]

theorem shared_packet_reaches_both :
    along step allowed (new 2 4) sharedEvents = true ∧
      along step shortIds (new 2 4) sharedEvents = true ∧
    (run step (new 2 4) sharedEvents).map StreamHandles.finished = some [⟨[0, 1], [0, 1], [0, 1]⟩] ∧
    ∃ s, run step (new 2 4) sharedEvents = some s ∧ s.sessions.Inverse ∧
      (∀ i j a b, s.sessions.items.get? i = some a → s.sessions.items.get? j = some b →
      a.key = b.key → i = j) ∧
      (∀ f ∈ s.finished, f.Delivered) ∧
      ∀ front writable itemKey full sender ids rest,
        sharedEvents = front ++ .sendAny writable itemKey full sender ids :: rest →
        ∃ before after result, run step (new 2 4) front = some before ∧
          before.sendAny writable itemKey full sender ids = some (after, result) ∧
          ∀ e, result = .error e → after.sessions = before.sessions :=
  ⟨by decide +kernel, by decide +kernel, by decide +kernel,
    packets_reach_each_owner_once 2 4 sharedEvents (by decide +kernel) (by decide +kernel)⟩

/-- The packet also lists an id of 65 bytes. -/
def longIdEvents : List Event :=
  [.add 0, .sendAny (fun _ => true) 0 false [65] [[1]], .sendDirect [65] [[1], List.replicate 65 7],
    .look, .look]

theorem long_id_stops_delivery :
    (run step (new 1 4) longIdEvents).map StreamHandles.finished = some [⟨[0], [], [0]⟩] ∧
    ¬ ∀ events, along step allowed (new 1 4) events = true →
      ∃ s, run step (new 1 4) events = some s ∧ ∀ f ∈ s.finished, f.Delivered := by
  have ended :
      (run step (new 1 4) longIdEvents).map StreamHandles.finished = some [⟨[0], [], [0]⟩] := by
    decide +kernel
  refine ⟨ended, ?_⟩
  intro all
  obtain ⟨s, ran, delivered⟩ := all longIdEvents (by decide +kernel)
  rw [ran, Option.map_some, Option.some.injEq] at ended
  have lost :=
    (delivered ⟨[0], [], [0]⟩ (by rw [ended]; exact List.mem_singleton.mpr rfl)).reached 0
      List.mem_cons_self List.mem_cons_self
  cases lost

end StreamHandles
end PushpinConnmgr
