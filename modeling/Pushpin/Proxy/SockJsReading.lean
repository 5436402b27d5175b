import Pushpin.Proxy.SockJsSession

namespace PushpinSockJs
open PushpinRingBuffer Text Loops Hashes

def Whole (message : List Frame) : Prop :=
  ∃ body last, message = body ++ [last] ∧ (∀ f ∈ body, f.more = true) ∧ last.more = false

theorem whole_single {f : Frame} (last : f.more = false) : Whole [f] := ⟨[], f, rfl, nofun, last⟩

theorem whole_cons {f : Frame} {message : List Frame} (more : f.more = true)
    (whole : Whole message) : Whole (f :: message) := by
  obtain ⟨body, last, rfl, all, ends⟩ := whole
  exact ⟨f :: body, last, rfl, List.forall_mem_cons.mpr ⟨more, all⟩, ends⟩

theorem splitMessage_some {frames message rest : List Frame}
    (split_ : splitMessage frames = some (message, rest)) :
    Whole message ∧ frames = message ++ rest := by
  induction frames generalizing message with
  | nil => cases split_
  | cons f frames ih =>
    unfold splitMessage at split_
    split at split_
    · next more =>
      obtain ⟨parts, inner, eq⟩ := Option.map_eq_some_iff.mp split_
      obtain ⟨rfl, rfl⟩ := Prod.mk.inj eq
      obtain ⟨whole, rfl⟩ := ih inner
      exact ⟨whole_cons more whole, rfl⟩
    · next last =>
      cases split_
      exact ⟨whole_single (by simpa using last), rfl⟩

theorem splitMessage_none {frames : List Frame} : splitMessage frames = none ↔
    ∀ f ∈ frames, f.more = true := by
  induction frames with
  | nil => simp [splitMessage]
  | cons f frames ih =>
    rw [splitMessage, List.forall_mem_cons]
    split
    · next more => simp [ih, more]
    · next last => simp [last]

theorem splitMessage_whole {message : List Frame} (whole : Whole message) (rest : List Frame) :
    splitMessage (message ++ rest) = some (message, rest) := by
  obtain ⟨body, last, rfl, all, ends⟩ := whole
  induction body with
  | nil => simp [splitMessage, ends]
  | cons f body ih =>
    rw [List.forall_mem_cons] at all
    rw [List.cons_append, List.cons_append, splitMessage, if_pos all.1, ih all.2]
    rfl

theorem whole_ne_nil {message : List Frame} (whole : Whole message) : message ≠ [] := by
  obtain ⟨body, last, rfl, -, -⟩ := whole
  exact List.append_ne_nil_of_right_ne_nil _ (List.cons_ne_nil _ _)

theorem splitMessage_append {frames message rest : List Frame}
    (split_ : splitMessage frames = some (message, rest)) (more : List Frame) :
    splitMessage (frames ++ more) = some (message, rest ++ more) := by
  obtain ⟨whole, rfl⟩ := splitMessage_some split_
  rw [List.append_assoc]
  exact splitMessage_whole whole _

theorem sizeOf_append (xs ys : List Frame) : sizeOf (xs ++ ys) = sizeOf xs + sizeOf ys := by
  simp [sizeOf]

/-- The frames that the messages of a socket make: those that are no texts are left out, and
    the others are lists of strings. -/
inductive Unwraps (lib : Lib) : List Frame → List Frame → Prop where
  | nil : Unwraps lib [] []
  | skip {done frames message : List Frame} (before : Unwraps lib done frames)
      (whole : Whole message)
      (control : message.head?.any Frame.isText = false) : Unwraps lib (done ++ message) frames
  | read {done frames message more : List Frame} {items : List (Option (List Byte))}
      (before : Unwraps lib done frames)
      (whole : Whole message) (text : message.head?.any Frame.isText = true)
        (fits : sizeOf message ≤ BUFFER_SIZE * 2)
      (parsed : lib.fromString (bytesOf message) = .list items)
        (valid : payloadFrames items = .ok more) :
      Unwraps lib (done ++ message) (frames ++ more)

theorem Unwraps.append {lib : Lib} {first frames second more : List Frame}
    (before : Unwraps lib first frames) (after : Unwraps lib second more) :
    Unwraps lib (first ++ second) (frames ++ more) := by
  induction after with
  | nil => simpa using before
  | skip _ whole control ih =>
    rw [← List.append_assoc]
    exact .skip ih whole control
  | read _ whole text fits parsed valid ih =>
    rw [← List.append_assoc, ← List.append_assoc]
    exact .read ih whole text fits parsed valid

def Refused (lib : Lib) (frames : List Frame) : Prop :=
  (∃ f ∈ frames, BUFFER_SIZE * 2 < f.data.length) ∨
  ∃ message rest, splitMessage frames = some (message, rest) ∧
    (BUFFER_SIZE * 2 < sizeOf message ∨ message.head?.any Frame.isText = true ∧
      ∀ items frames, lib.fromString (bytesOf message) = .list items →
        payloadFrames items ≠ .ok frames)

namespace Session
variable {s t : Session} {id : Nat} {ri : RequestItem}

theorem item_insert (s : Session) (id : Nat) (ri : RequestItem) (k : Nat) :
    (s.insert id ri).item k = if k = id then some ri else s.item k := Hash.get?_insert ..

theorem item_modify (s : Session) (id : Nat) (f : RequestItem → RequestItem) (k : Nat) :
    (s.modify id f).item k = if k = id then (s.item k).map f else s.item k := Hash.get?_modify ..

theorem item_remove (s : Session) (id k : Nat) :
    (s.removeRequestItem id).item k = if k = id then none else s.item k := Hash.get?_erase ..

def took (s : Session) (id : Nat) (ri : RequestItem) (f : Frame) (frames : List Frame) : Session :=
  { s.modify id fun ri => { ri with
      sendFrames := frames
      sendBytes := ri.sendBytes - f.data.length
      responded := ri.responded || frames.isEmpty } with
    inFrames := s.inFrames ++ [f]
    inBytes := s.inBytes + f.data.length
    out := s.out ++ if frames = [] then [.respond id .ok ri.jsonpCallback] else [] }

inductive Takes : Session → Session → Prop where
  | refl (s : Session) : Takes s s
  | take {s t : Session} {id : Nat} {ri : RequestItem} {f : Frame} {frames : List Frame}
      (found : s.item id = some ri)
      (sends : ri.type = .send) (waits : ri.responded = false) (next : ri.sendFrames = f :: frames)
      (bytes : ri.sendBytes = sizeOf ri.sendFrames) (room : s.inBytes + f.data.length ≤ BUFFER_SIZE)
      (rest : Takes (s.took id ri f frames) t) : Takes s t

theorem item_took (s : Session) (id : Nat) (ri : RequestItem) (f : Frame) (frames : List Frame)
    (k : Nat) : (s.took id ri f frames).item k =
      if k = id then
        (s.item k).map fun ri => { ri with
          sendFrames := frames
          sendBytes := ri.sendBytes - f.data.length
          responded := ri.responded || frames.isEmpty }
      else s.item k := item_modify ..

theorem Takes.longer (takes : s.Takes t) : s.inFrames <+: t.inFrames := by
  induction takes with
  | refl s => exact List.prefix_rfl
  | take _ _ _ _ _ _ _ ih => exact (List.prefix_append ..).trans ih

theorem takeSends_takes (sends : List (Nat × RequestItem)) (s : Session)
    (there : ∀ r ∈ sends, s.item r.1 = some r.2 ∧ r.2.type = .send ∧ r.2.responded = false ∧
      r.2.sendFrames ≠ [] ∧ r.2.sendBytes = sizeOf r.2.sendFrames)
    (distinct : (sends.map Prod.fst).Nodup) :
    ∃ t ready, takeSends sends s = some (t, ready) ∧ s.Takes t ∧ (ready = true → t.inFrames ≠ []) ∧
      (ready = false → t = s ∧ (sends = [] ∨ ∃ r ∈ sends, ∃ f frames, r.2.sendFrames = f :: frames ∧
        BUFFER_SIZE < s.inBytes + f.data.length)) := by
  induction sends generalizing s with
  | nil => exact ⟨s, false, rfl, .refl s, nofun, fun _ => ⟨rfl, Or.inl rfl⟩⟩
  | cons r sends ih =>
    obtain ⟨id, ri⟩ := r
    obtain ⟨found, send, open_, some_, bytes⟩ := there (id, ri) List.mem_cons_self
    obtain ⟨f, frames, next⟩ := List.exists_cons_of_ne_nil some_
    unfold takeSends
    rw [next]
    dsimp only
    by_cases full : s.inBytes + f.data.length > BUFFER_SIZE
    · rw [if_pos full]
      exact ⟨s, false, rfl, .refl s, nofun, fun _ =>
        ⟨rfl, Or.inr ⟨(id, ri), List.mem_cons_self, f, frames, next, full⟩⟩⟩
    · rw [if_neg full]
      have left : frames = [] → ri.sendBytes - f.data.length = 0 := by
        rintro rfl
        rw [show ri.sendBytes = sizeOf ri.sendFrames from bytes, next]
        simp [sizeOf]
      have others : ∀ r ∈ sends, (s.took id ri f frames).item r.1 = some r.2 ∧ r.2.type = .send ∧
          r.2.responded = false ∧ r.2.sendFrames ≠ [] ∧ r.2.sendBytes = sizeOf r.2.sendFrames := by
        intro r mem
        have other : r.1 ≠ id := by
          rintro rfl
          exact (List.nodup_cons.mp distinct).1 (List.mem_map.mpr ⟨r, mem, rfl⟩)
        rw [item_took, if_neg other]
        exact there r (List.mem_cons_of_mem _ mem)
      obtain ⟨t, ready, passed, takes, -, -⟩ :=
        ih (s.took id ri f frames) others (List.nodup_cons.mp distinct).2
      have some_ : t.inFrames ≠ [] := by
        rintro none_
        have longer := takes.longer
        rw [none_, List.prefix_nil] at longer
        exact absurd longer (List.append_ne_nil_of_right_ne_nil s.inFrames (List.cons_ne_nil f []))
      refine ⟨t, true, ?_, .take found send open_ next bytes (by omega) takes, fun _ => some_,
        nofun⟩
      cases frames with
      | nil =>
        have same : Session.took s id ri f [] = { ((s.modify id fun ri => { ri with
            sendFrames := []
            sendBytes := ri.sendBytes - f.data.length }).modify id fun ri =>
              { ri with responded := true }).respond id .ok ri.jsonpCallback with
            inFrames := s.inFrames ++ [f]
            inBytes := s.inBytes + f.data.length } := by
          unfold took modify respond emit
          simp [Hash.modify_modify, Function.comp_def]
        rw [same] at passed
        rw [if_pos rfl, if_pos (left rfl)]
        simp only [Option.bind_eq_bind, Option.bind_some]
        erw [passed]
        rfl
      | cons g frames =>
        have same : s.took id ri f (g :: frames) = { s.modify id fun ri => { ri with
            sendFrames := g :: frames
            sendBytes := ri.sendBytes - f.data.length } with
            inFrames := s.inFrames ++ [f]
            inBytes := s.inBytes + f.data.length } := by
          simp [took, modify]
        rw [same] at passed
        simp only [Option.bind_eq_bind, Option.bind_some, reduceCtorEq, if_false]
        erw [passed]
        rfl

theorem Takes.rule (inv : Session → Prop) (takes : s.Takes t) (start : inv s)
    (keeps : ∀ (s : Session) id ri f frames, inv s → s.item id = some ri → ri.type = .send →
    ri.responded = false →
      ri.sendFrames = f :: frames → ri.sendBytes = sizeOf ri.sendFrames →
        s.inBytes + f.data.length ≤ BUFFER_SIZE →
      inv (s.took id ri f frames)) : inv t := by
  induction takes with
  | refl s => exact start
  | take found sends waits next bytes room rest ih =>
      exact ih (keeps _ _ _ _ _ start found sends waits next bytes room)

def readOn (s : Session) (sockFrames inWrappedFrames frames : List Frame) : Session :=
  { s with
    sockFrames
    inWrappedFrames
    inFrames := s.inFrames ++ frames
    inBytes := s.inBytes + sizeOf frames }

structure ReadOn (lib : Lib) (s u : Session) (ready over_ : Bool) (done frames : List Frame) :
    Prop where
  state : u = s.readOn u.sockFrames u.inWrappedFrames frames
  made : Unwraps lib done frames
  told : ready = false → frames = []
  rest : over_ = false →
    s.inWrappedFrames ++ s.sockFrames = done ++ (u.inWrappedFrames ++ u.sockFrames) ∧
    (BUFFER_SIZE ≤ u.inBytes ∨ splitMessage u.inWrappedFrames = none ∧ u.sockFrames = [])
  refused : over_ = true → ∃ rest, s.inWrappedFrames ++ s.sockFrames = done ++ rest ∧
    Refused lib rest

theorem readRounds (lib : Lib) (there : s.sock = true) :
    ∃ u ready over_ done frames,
      loop (readRound lib) (2 * s.sockFrames.length + s.inWrappedFrames.length + 1)
        (s, false) = some ((u, ready), over_) ∧
      s.ReadOn lib u ready over_ done frames := by
  have looped := @loop_rule _ _ (readRound lib) (fun _ => true)
    (fun state => 2 * state.1.sockFrames.length + state.1.inWrappedFrames.length)
    (fun state => ∃ done frames sockFrames wrapped, state.1 = s.readOn sockFrames wrapped frames ∧
      Unwraps lib done frames ∧ (state.2 = false → frames = []) ∧
      s.inWrappedFrames ++ s.sockFrames = done ++ (wrapped ++ sockFrames))
    (fun state over_ => ∃ done frames, s.ReadOn lib state.1 state.2 over_ done frames) ?_
    (2 * s.sockFrames.length + s.inWrappedFrames.length + 1) (s, false) ?_ (Nat.lt_succ_self _)
      (throughout_true ..)
  · obtain ⟨⟨u, ready⟩, over_, ran, done, frames, ends⟩ := looped
    exact ⟨u, ready, over_, done, frames, ran, ends⟩
  · rintro ⟨u, ready⟩ ⟨done, frames, sockFrames, wrapped, rfl, made, told, all⟩ -
    dsimp only at told
    unfold readRound
    dsimp only
    split
    · next full =>
      exact Or.inr ⟨_, _, rfl, done, frames, rfl, made, told, fun _ => ⟨all, Or.inl full⟩, nofun⟩
    · split
      · next open_ =>
        have sock : ¬ (s.readOn sockFrames wrapped frames).sock = false := by
          rw [show (s.readOn sockFrames wrapped frames).sock = true from there]
          exact Bool.noConfusion
        rw [if_neg sock]
        cases sockFrames with
        | nil =>
          exact Or.inr ⟨_, _, rfl, done, frames, rfl, made, told, fun _ =>
            ⟨all, Or.inr ⟨open_, rfl⟩⟩, nofun⟩
        | cons f sockFrames =>
          dsimp only [readOn]
          split
          · next big =>
            refine Or.inr ⟨_, _, rfl, done, frames, rfl, made, told, nofun, fun _ =>
              ⟨_, all, Or.inl ⟨f, ?_, big⟩⟩⟩
            exact List.mem_append_right _ List.mem_cons_self
          · next fits =>
            refine Or.inl ⟨_, rfl, ⟨done, frames, sockFrames, wrapped ++ [f], rfl, made, told, ?_⟩,
              ?_⟩
            · rw [all, List.append_assoc wrapped]
              rfl
            · simp
              omega
      · next message wrapped' split_ =>
        have split_ : splitMessage wrapped = some (message, wrapped') := split_
        obtain ⟨whole, eq⟩ := splitMessage_some split_
        have less : wrapped'.length < wrapped.length := by
          rw [eq, List.length_append]
          have := List.length_pos_of_ne_nil (whole_ne_nil whole)
          omega
        have refused : (BUFFER_SIZE * 2 < sizeOf message ∨ message.head?.any Frame.isText = true ∧
            ∀ items frames, lib.fromString (bytesOf message) = .list items →
              payloadFrames items ≠ .ok frames) →
            Refused lib (wrapped ++ sockFrames) :=
          fun why => Or.inr ⟨message, wrapped' ++ sockFrames, splitMessage_append split_ sockFrames,
            why⟩
        have on : s.inWrappedFrames ++ s.sockFrames = done ++ message ++
            (wrapped' ++ sockFrames) := by
          rw [all, eq, List.append_assoc, List.append_assoc]
        split
        · next big =>
          exact Or.inr ⟨_, _, rfl, done, frames, rfl, made, told, nofun, fun _ =>
            ⟨_, all, refused (Or.inl big)⟩⟩
        · next fits =>
          split
          · next control =>
            have control : message.head?.any Frame.isText = false := by simpa using control
            refine Or.inl ⟨_, rfl, ⟨done ++ message, frames, sockFrames, wrapped', rfl,
              .skip made whole control, told, on⟩, ?_⟩
            simp [readOn]
            omega
          · next text =>
            have text : message.head?.any Frame.isText = true := by simpa using text
            split
            · next items parsed =>
              split
              · next more valid =>
                refine Or.inl ⟨_, rfl, ⟨done ++ message, frames ++ more, sockFrames, wrapped', ?_,
                  .read made whole text (by omega) parsed valid, nofun, on⟩, ?_⟩
                · simp only [readOn, sizeOf_append, List.append_assoc, Nat.add_assoc]
                · simp [readOn]
                  omega
              · next why invalid =>
                refine Or.inr ⟨_, _, rfl, done, frames, rfl, made, told, nofun, fun _ => ⟨_, all,
                  refused (Or.inr ⟨text, fun items' frames' parsed' valid => ?_⟩)⟩⟩
                rw [parsed] at parsed'
                cases parsed'
                rw [invalid] at valid
                cases valid
            · next other =>
              exact Or.inr ⟨_, _, rfl, done, frames, rfl, made, told, nofun, fun _ => ⟨_, all,
                refused (Or.inr ⟨text, fun items' _ parsed' => absurd parsed' (other items')⟩)⟩⟩
  · exact ⟨[],
      [], s.sockFrames, s.inWrappedFrames, by simp [readOn, sizeOf], .nil, fun _ => rfl, rfl⟩

theorem tryRead_http (lib : Lib) (http : s.mode = .http)
    (waiting : ∀ id ri, s.item id = some ri → ri.type = .send → ri.responded = false →
      ri.sendFrames ≠ [] ∧ ri.sendBytes = sizeOf ri.sendFrames) :
    ∃ u ready, s.tryRead lib = some (if ready = true then u.emit .readyRead else u, ready, true) ∧
      s.Takes u ∧ (ready = true → u.inFrames ≠ []) ∧
      (ready = false → u = s ∧
      ((∀ id ri, s.item id = some ri → ri.type = .send → ri.responded = true) ∨
        ∃ id ri f frames, s.item id = some ri ∧ ri.type = .send ∧ ri.sendFrames = f :: frames ∧
          BUFFER_SIZE < s.inBytes + f.data.length)) := by
  have there : ∀ r ∈ s.requests.entries.filter fun r => r.2.type = .send ∧ r.2.responded = false,
      s.item r.1 = some r.2 ∧ r.2.type = .send ∧ r.2.responded = false ∧
        r.2.sendFrames ≠ [] ∧ r.2.sendBytes = sizeOf r.2.sendFrames := by
    intro r mem
    obtain ⟨mem, kind⟩ := List.mem_filter.mp mem
    obtain ⟨send, open_⟩ := of_decide_eq_true kind
    have found : s.item r.1 = some r.2 := Hash.mem_iff_get?.mp mem
    exact ⟨found, send, open_, waiting r.1 r.2 found send open_⟩
  obtain ⟨u, ready, passed, takes, some_, idle⟩ := takeSends_takes _ s there
    (s.requests.distinct.sublist (List.filter_sublist.map Prod.fst))
  refine ⟨u, ready, ?_, takes, some_, fun quiet => ⟨(idle quiet).1, ?_⟩⟩
  rotate_left
  · rcases (idle quiet).2 with none_ | ⟨r, mem, f, frames, next, full⟩
    · refine Or.inl fun id ri found send => ?_
      by_contra open_
      have mem : (id, ri) ∈ s.requests.entries.filter fun r => r.2.type = .send ∧
          r.2.responded = false :=
        List.mem_filter.mpr ⟨Hash.mem_iff_get?.mpr found,
          decide_eq_true ⟨send, by simpa using open_⟩⟩
      rw [none_] at mem
      cases mem
    · obtain ⟨found, send, -⟩ := there r mem
      exact Or.inr ⟨r.1, r.2, f, frames, found, send, next, full⟩
  unfold tryRead
  rw [http]
  simp only [passed, Option.bind_eq_bind, Option.bind_some]
  rfl

theorem tryRead_framed (lib : Lib) (framed : s.mode = .webSocketFramed) (there : s.sock = true) :
    ∃ u ready over_ done frames, s.ReadOn lib u ready over_ done frames ∧
      s.tryRead lib = if over_ = true then
        ({ u with state := .idle } : Session).cleanup.map fun t => (t.emit .error, false, false)
        else some (if ready = true then u.emit .readyRead else u, ready, true) := by
  obtain ⟨u, ready, over_, done, frames, ran, ends⟩ := readRounds lib there
  refine ⟨u, ready, over_, done, frames, ends, ?_⟩
  unfold tryRead
  rw [framed]
  simp only [ran, Option.bind_eq_bind, Option.bind_some]
  cases over_ with
  | true =>
    simp only [if_true]
    cases ({ u with state := .idle } : Session).cleanup <;> rfl
  | false => rfl

end Session
end PushpinSockJs
