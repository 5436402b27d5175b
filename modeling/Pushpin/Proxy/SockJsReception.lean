import Pushpin.Proxy.SockJsDelivery

namespace PushpinSockJs
open PushpinRingBuffer Text Loops Hashes Session
open Option (bind_eq_some_iff map_eq_some_iff)

def Frame.ofText (data : List Byte) : Frame := ⟨.text, data, false⟩

def strings (lib : Lib) (data : List Byte) : Option (List (List Byte)) :=
  match lib.fromString data with
  | .list items => if items.all Option.isSome then some (items.filterMap fun item => item) else none
  | _ => none

def readings (out : List Output) : List Frame :=
  out.filterMap fun
    | .read f => some f
    | _ => none

theorem readings_append (xs ys : List Output) : readings (xs ++ ys) = readings xs ++ readings ys :=
  List.filterMap_append

/-- Frames in the middle of a message or not: what continues a message comes only there, and
    control frames do not. -/
@[grind =]
def tidyFrom : Bool → List Frame → Bool
  | _, [] => true
  | true, f :: frames => f.type = .continuation && tidyFrom f.more frames
  | false, f :: frames => f.type ≠ .continuation && (f.isText || !f.more) && tidyFrom f.more frames

variable {frames : List Frame}

theorem payloadFrames_ok {items : List (Option (List Byte))} :
    payloadFrames items = .ok frames ↔
      items.all Option.isSome = true ∧ (∀ data, some data ∈ items → data.length ≤ BUFFER_SIZE) ∧
        frames = (items.filterMap fun item => item).map Frame.ofText := by
  induction items generalizing frames with
  | nil => simp [payloadFrames, eq_comm]
  | cons item items ih =>
    cases item with
    | none => simp [payloadFrames]
    | some data =>
      unfold payloadFrames
      split
      · next big =>
        constructor
        · nofun
        · rintro ⟨-, small, -⟩
          exact absurd (small data List.mem_cons_self) (by omega)
      · next small =>
        cases rest : payloadFrames items with
        | error why =>
          constructor
          · nofun
          · rintro ⟨all, lengths, -⟩
            simp only [List.all_cons, Option.isSome_some, Bool.true_and] at all
            have ok := ih.mpr ⟨all, fun d mem => lengths d (List.mem_cons_of_mem _ mem), rfl⟩
            rw [rest] at ok
            cases ok
        | ok more =>
          obtain ⟨all, lengths, rfl⟩ := ih.mp rest
          constructor
          · rintro eq
            cases eq
            refine ⟨by simpa using all, ?_, rfl⟩
            intro d mem
            rcases List.mem_cons.mp mem with same | mem
            · cases same
              omega
            · exact lengths d mem
          · rintro ⟨-, -, rfl⟩
            rfl

variable {lib : Lib}

theorem strings_some {data : List Byte} {texts : List (List Byte)} :
    strings lib data = some texts ↔
      ∃ items, lib.fromString data = .list items ∧ items.all Option.isSome = true ∧
        texts = items.filterMap fun item => item := by
  unfold strings
  split
  · next items parsed =>
    rw [Option.ite_none_right_eq_some, Option.some_inj, parsed]
    constructor
    · rintro ⟨all, rfl⟩
      exact ⟨items, rfl, all, rfl⟩
    · rintro ⟨items', same, all, rfl⟩
      cases same
      exact ⟨all, rfl⟩
  · next other =>
    constructor
    · nofun
    · rintro ⟨items, parsed, -⟩
      exact absurd parsed (other items)

theorem strings_of_payload {data : List Byte} {items : List (Option (List Byte))}
    (parsed : lib.fromString data = .list items) (valid : payloadFrames items = .ok frames) :
    ∃ texts, strings lib data = some texts ∧ frames = texts.map Frame.ofText := by
  obtain ⟨all, -, rfl⟩ := payloadFrames_ok.mp valid
  exact ⟨items.filterMap fun item => item, strings_some.mpr ⟨items, parsed, all, rfl⟩, rfl⟩

theorem messagesFrom_open {body : List Frame} {last : Frame} {rest : List Frame} (data : List Byte)
    (all : ∀ f ∈ body, f.more = true) (ends : last.more = false)
    (tidy : tidyFrom true (body ++ last :: rest) = true) :
    messagesFrom (some data) (body ++ last :: rest) = (data ++ bytesOf (body ++ [last])) ::
      messagesFrom none rest ∧ tidyFrom false rest = true := by
  induction body generalizing data with
  | nil =>
    simp only [List.nil_append, tidyFrom, Bool.and_eq_true, decide_eq_true_eq] at tidy
    refine ⟨?_, by rw [← ends]; exact tidy.2⟩
    simp [messagesFrom, tidy.1, ends, bytesOf]
  | cons f body ih =>
    rw [List.forall_mem_cons] at all
    simp only [List.cons_append, tidyFrom, Bool.and_eq_true, decide_eq_true_eq, all.1] at tidy
    obtain ⟨eq, closed⟩ := ih (data ++ f.data) all.2 tidy.2
    refine ⟨?_, closed⟩
    rw [List.cons_append, messagesFrom, tidy.1]
    simp only [Option.getD_some, all.1, if_true]
    rw [eq]
    simp [bytesOf]

/-- Where frames are tidy, the messages up to the first frame without more are those that
    the protocol has. -/
theorem messages_whole {message rest : List Frame} (whole : Whole message)
    (tidy : tidyFrom false (message ++ rest) = true) : messages (message ++ rest) =
      (if message.head?.any Frame.isText then [bytesOf message] else []) ++ messages rest ∧
      tidyFrom false rest = true := by
  obtain ⟨body, last, rfl, all, ends⟩ := whole
  cases body with
  | nil =>
    simp only [List.nil_append, List.singleton_append, tidyFrom, Bool.and_eq_true,
      decide_eq_true_eq, ends] at tidy ⊢
    refine ⟨?_, tidy.2⟩
    obtain ⟨type, data, more⟩ := last
    cases type <;> simp_all [messages, messagesFrom, Frame.isText, bytesOf]
  | cons f body =>
    rw [List.forall_mem_cons] at all
    simp only [List.cons_append, List.append_assoc, List.nil_append, tidyFrom, Bool.and_eq_true,
      decide_eq_true_eq, all.1, Bool.not_true, Bool.or_false] at tidy ⊢
    obtain ⟨eq, closed⟩ := messagesFrom_open f.data all.2 ends tidy.2
    refine ⟨?_, closed⟩
    have text : f.isText = true := tidy.1.2
    unfold messages
    rw [messagesFrom]
    obtain ⟨type, data, more⟩ := f
    cases type <;> simp_all [Frame.isText, bytesOf]

theorem tidy_front {open_ : Bool} {xs ys : List Frame} (tidy : tidyFrom open_ (xs ++ ys) = true) :
    tidyFrom open_ xs = true := by
  induction xs generalizing open_ with
  | nil => cases open_ <;> rfl
  | cons f xs ih =>
    cases open_ with
    | true =>
      simp only [List.cons_append, tidyFrom, Bool.and_eq_true] at tidy ⊢
      exact ⟨tidy.1, ih tidy.2⟩
    | false =>
      simp only [List.cons_append, tidyFrom, Bool.and_eq_true] at tidy ⊢
      exact ⟨tidy.1, ih tidy.2⟩

theorem messages_nil : messages [] = [] := rfl

theorem unwraps_strings {done : List Frame} (made : Unwraps lib done frames) {rest : List Frame}
    (tidy : tidyFrom false (done ++ rest) = true) :
    messages (done ++ rest) = messages done ++ messages rest ∧ tidyFrom false rest = true ∧
    ∃ parts : List (List (List Byte)),
      (messages done).map (strings lib) = parts.map some ∧
      frames = parts.flatten.map Frame.ofText := by
  induction made generalizing rest with
  | nil => exact ⟨rfl, tidy, [], rfl, rfl⟩
  | @skip done frames message _ whole control ih =>
    have front := tidy_front tidy
    rw [List.append_assoc] at tidy ⊢
    obtain ⟨split_, tidy', parts, eq, made⟩ := ih tidy
    obtain ⟨whole_, closed⟩ := messages_whole whole tidy'
    obtain ⟨split', -, -⟩ := ih front
    have none_ := (@messages_whole _ [] whole (by rw [List.append_nil]; exact tidy_front tidy')).1
    rw [control, List.append_nil] at none_
    rw [control] at whole_
    have same : messages (done ++ message) = messages done := by
      rw [split', none_, messages_nil]
      exact List.append_nil _
    exact ⟨by rw [split_, whole_, same]; rfl, closed, parts, by rw [same]; exact eq, made⟩
  | @read done frames message more items _ whole text fits parsed valid ih =>
    have front := tidy_front tidy
    rw [List.append_assoc] at tidy ⊢
    obtain ⟨split_, tidy', parts, eq, made⟩ := ih tidy
    obtain ⟨whole_, closed⟩ := messages_whole whole tidy'
    obtain ⟨split', -, -⟩ := ih front
    have one := (@messages_whole _ [] whole (by rw [List.append_nil]; exact tidy_front tidy')).1
    rw [text, List.append_nil] at one
    rw [text] at whole_
    have same : messages (done ++ message) = messages done ++ [bytesOf message] := by
      rw [split', one, messages_nil]
      rfl
    obtain ⟨texts, known, rfl⟩ := strings_of_payload parsed valid
    refine ⟨by rw [split_, whole_, same, List.append_assoc]; rfl, closed, parts ++ [texts], ?_, ?_⟩
    · rw [same, List.map_append, eq, List.map_append, List.map_singleton, known]
      rfl
    · rw [made, List.flatten_append, List.map_append]
      simp

theorem tidyFrom_append (open_ : Bool) (xs ys : List Frame) :
    tidyFrom open_ (xs ++ ys) =
      (tidyFrom open_ xs && tidyFrom ((xs.getLast?.map Frame.more).getD open_) ys) := by
  induction xs generalizing open_ with
  | nil => cases open_ <;> rfl
  | cons f xs ih =>
    have last : ((f :: xs).getLast?.map Frame.more).getD open_ =
        (xs.getLast?.map Frame.more).getD f.more := by
      cases xs with
      | nil => rfl
      | cons g xs =>
        rw [List.getLast?_cons_cons]
        cases found : (g :: xs).getLast? with
        | none => simp at found
        | some h => rfl
    rw [last]
    cases open_ <;> simp only [List.cons_append, tidyFrom, ih, Bool.and_assoc]

theorem unwraps_closed {done : List Frame} (made : Unwraps lib done frames) :
    (done.getLast?.map Frame.more).getD false = false := by
  have ends : ∀ {done message : List Frame}, Whole message →
      (((done ++ message).getLast?).map Frame.more).getD false = false := by
    rintro done message ⟨body, last, rfl, -, ends⟩
    rw [← List.append_assoc, List.getLast?_append]
    simpa using ends
  cases made with
  | nil => rfl
  | skip _ whole _ => exact ends whole
  | read _ whole _ _ _ _ => exact ends whole

namespace Session
variable {lib : Lib} {s t : Session} {id : Nat} {ri : RequestItem}

/-- What the client sent: the frames, and the requests that did not fail. The flag says that
    the socket has yet to tell of some. -/
structure Past where
  frames : List Frame := []
  asked : List Nat := []
  due : Bool := false

def Waiting (s : Session) (frames : List Frame) : Prop :=
  (∃ id ri, s.item id = some ri ∧ ri.type = .send ∧ ri.responded = false ∧ frames = ri.sendFrames) ∨
  (∀ id ri, s.item id = some ri → ri.type = .send → ri.responded = true) ∧ frames = []

structure Receiving (s : Session) : Prop where
  bytes : s.inBytes = sizeOf s.inFrames
  lone : ∀ id ri id' ri', s.item id = some ri → ri.type = .send → s.item id' = some ri' →
    ri'.type = .send → id = id'
  small : ∀ id ri, s.item id = some ri → ri.type = .send →
    ∀ f ∈ ri.sendFrames, f.data.length ≤ BUFFER_SIZE
  done : ∀ id ri, s.item id = some ri → ri.type = .send → ri.responded = true → ri.sendFrames = []
  counts : ∀ id ri, s.item id = some ri → ri.type = .send →
    (responses s.out).count id = if ri.responded then 1 else 0

def Moves (s : Session) : Prop :=
  ∀ id ri, s.item id = some ri → ri.type = .send → ri.responded = false → s.updating = false →
    s.inFrames ≠ []

def Still (s : Session) : Prop :=
  s.sock = true → s.updating = false → s.inFrames ≠ [] ∨ splitMessage s.inWrappedFrames = none ∧
    s.sockFrames = []

def Holds (s : Session) (sofar : List Frame) : Prop :=
  ∃ rest, readings s.out ++ s.inFrames ++ rest = sofar ∧ (s.manager = true → s.Waiting rest)

def Wraps (lib : Lib) (s : Session) (sofar : List Frame) : Prop :=
  tidyFrom false sofar = true ∧ ∃ done rest, sofar = done ++ rest ∧
    Unwraps lib done (readings s.out ++ s.inFrames) ∧
    (s.sock = true → rest = s.inWrappedFrames ++ s.sockFrames)

def Asked (s : Session) (id : Nat) : Prop :=
  (∃ ri, s.item id = some ri ∧ ri.type = .send) ∨
  s.item id = none ∧ ((responses s.out).count id = 1 ∨ s.manager = false ∧
    (responses s.out).count id = 0)

structure Received (lib : Lib) (s : Session) (past : Past) : Prop extends s.Receiving where
  carries : s.mode ≠ .webSocketPassthrough
  asked : ∀ id ∈ past.asked, s.Asked id
  moves : s.Moves
  still : s.mode = .webSocketFramed → past.due = false → s.Still
  holds : s.mode = .http → s.Holds past.frames
  wraps : s.mode = .webSocketFramed → s.Wraps lib past.frames

def settled (s : Session) (id : Nat) : Prop := id ∈ responses s.out ∨ s.manager = false

theorem settled_new (there : s.manager = true) (new : id ∉ responses s.out) : ¬ s.settled id :=
  fun settled => settled.elim new fun away => by cases there.symm.trans away

structure Aside (s t : Session) : Prop where
  mode : t.mode = s.mode
  inBytes : t.inBytes = s.inBytes
  inFrames : t.inFrames = s.inFrames
  sockFrames : t.sockFrames = s.sockFrames
  wrapped : t.inWrappedFrames = s.inWrappedFrames
  read : readings t.out = readings s.out
  manager : t.manager = true → s.manager = true
  sock : t.sock = true → s.sock = true
  updating : t.updating = false → s.updating = false
  back : ∀ id ri, t.item id = some ri → ri.type = .send → s.item id = some ri
  on : t.manager = true → ∀ id ri, s.item id = some ri → ri.type = .send → ri.responded = false →
    t.item id = some ri
  stays : ∀ id ri, s.item id = some ri → ri.type = .send →
    (t.item id = some ri ∨ t.item id = none ∧ t.settled id) ∧
      (responses t.out).count id = (responses s.out).count id
  closed : ∀ id, s.item id = none → s.settled id →
    t.item id = none ∧ (responses t.out).count id = (responses s.out).count id

theorem Aside.counts (aside : s.Aside t) (found : t.item id = some ri) (send : ri.type = .send) :
    (responses t.out).count id = (responses s.out).count id :=
  (aside.stays id ri (aside.back id ri found send) send).2

theorem Aside.over (aside : s.Aside t) (away : s.manager = false) : t.manager = false := by
  by_contra there
  exact absurd ((aside.manager (by simpa using there)).symm.trans away) (by decide)

theorem settled_of_count (aside : s.Aside t) (settled : s.settled id)
    (same : (responses t.out).count id = (responses s.out).count id) : t.settled id := by
  rcases settled with mem | away
  · exact Or.inl (List.count_pos_iff.mp (by rw [same]; exact List.count_pos_iff.mpr mem))
  · exact Or.inr (aside.over away)

theorem Asked.aside (receiving : s.Receiving) (asked : s.Asked id) (aside : s.Aside t) :
    t.Asked id := by
  rcases asked with ⟨ri, found, send⟩ | ⟨none_, once⟩
  · obtain ⟨there | ⟨gone, -⟩, same⟩ := aside.stays id ri found send
    · exact Or.inl ⟨ri, there, send⟩
    · refine Or.inr ⟨gone, ?_⟩
      have count := receiving.counts id ri found send
      cases responded : ri.responded with
      | true => exact Or.inl (by rw [same, count, responded]; rfl)
      | false =>
        refine Or.inr ⟨?_, by rw [same, count, responded]; rfl⟩
        by_contra there
        cases gone.symm.trans (aside.on (by simpa using there) id ri found send responded)
  · rcases once with once | ⟨away, never⟩
    · have mem : id ∈ responses s.out := List.count_pos_iff.mp (by rw [once]; decide)
      obtain ⟨gone, same⟩ := aside.closed id none_ (Or.inl mem)
      exact Or.inr ⟨gone, Or.inl (same.trans once)⟩
    · obtain ⟨gone, same⟩ := aside.closed id none_ (Or.inr away)
      exact Or.inr ⟨gone, Or.inr ⟨aside.over away, same.trans never⟩⟩

variable {past : Past}

theorem Received.aside (received : s.Received lib past) (aside : s.Aside t) :
    t.Received lib past where
  bytes := by rw [aside.inBytes, aside.inFrames, received.bytes]
  lone := fun id ri id' ri' found send found' send' =>
    received.lone id ri id' ri' (aside.back id ri found send) send
      (aside.back id' ri' found' send') send'
  small := fun id ri found send => received.small id ri (aside.back id ri found send) send
  done := fun id ri found send => received.done id ri (aside.back id ri found send) send
  counts := fun id ri found send => by
    rw [aside.counts found send]
    exact received.counts id ri (aside.back id ri found send) send
  asked := fun id mem => (received.asked id mem).aside received.toReceiving aside
  carries := by rw [aside.mode]; exact received.carries
  moves := fun id ri found send open_ updated => by
    rw [aside.inFrames]
    exact received.moves id ri (aside.back id ri found send) send open_ (aside.updating updated)
  still := fun framed due there updated => by
    rw [aside.inFrames, aside.wrapped, aside.sockFrames]
    exact received.still (aside.mode.symm.trans framed) due (aside.sock there)
      (aside.updating updated)
  holds := fun http => by
    obtain ⟨rest, eq, waits⟩ := received.holds (aside.mode.symm.trans http)
    refine ⟨rest, by rw [aside.read, aside.inFrames, eq], fun there => ?_⟩
    rcases waits (aside.manager there) with ⟨id, ri, found, send, open_, rfl⟩ | ⟨none_, rfl⟩
    · exact Or.inl ⟨id, ri, aside.on there id ri found send open_, send, open_, rfl⟩
    · exact Or.inr ⟨fun id ri found send => none_ id ri (aside.back id ri found send) send, rfl⟩
  wraps := fun framed => by
    obtain ⟨tidy, done, rest, eq, made, same⟩ := received.wraps (aside.mode.symm.trans framed)
    refine ⟨tidy, done, rest, eq, by rw [aside.read, aside.inFrames]; exact made, fun there => ?_⟩
    rw [same (aside.sock there), aside.wrapped, aside.sockFrames]

theorem Aside.refl (s : Session) : s.Aside s :=
  ⟨rfl, rfl, rfl, rfl, rfl, rfl, id, id, id, fun _ _ found _ => found, fun _ _ _ found _ _ => found,
    fun _ _ found _ => ⟨Or.inl found, rfl⟩, fun _ none_ _ => ⟨none_, rfl⟩⟩

theorem Aside.trans {u : Session} (first : s.Aside t) (second : t.Aside u) : s.Aside u where
  mode := second.mode.trans first.mode
  inBytes := second.inBytes.trans first.inBytes
  inFrames := second.inFrames.trans first.inFrames
  sockFrames := second.sockFrames.trans first.sockFrames
  wrapped := second.wrapped.trans first.wrapped
  read := second.read.trans first.read
  manager := fun there => first.manager (second.manager there)
  sock := fun there => first.sock (second.sock there)
  updating := fun updated => first.updating (second.updating updated)
  back := fun id ri found send => first.back id ri (second.back id ri found send) send
  on := fun there id ri found send open_ =>
    second.on there id ri (first.on (second.manager there) id ri found send open_) send open_
  stays := fun id ri found send => by
    obtain ⟨there | ⟨gone, settled⟩, same⟩ := first.stays id ri found send
    · obtain ⟨left, same'⟩ := second.stays id ri there send
      exact ⟨left, same'.trans same⟩
    · obtain ⟨gone', same'⟩ := second.closed id gone settled
      exact ⟨Or.inr ⟨gone', settled_of_count second settled same'⟩, same'.trans same⟩
  closed := fun id none_ settled => by
    obtain ⟨gone, same⟩ := first.closed id none_ settled
    obtain ⟨gone', same'⟩ := second.closed id gone (settled_of_count first settled same)
    exact ⟨gone', same'.trans same⟩

theorem Aside.emit (s : Session) (output : Output)
    (silent : readings [output] = [] ∧ responses [output] = []) : s.Aside (s.emit output) := by
  have same : responses (s.emit output).out = responses s.out := by
    show responses (s.out ++ [output]) = _
    rw [responses_append, silent.2, List.append_nil]
  exact { Aside.refl s with
    read := by
      show readings (s.out ++ [output]) = _
      rw [readings_append, silent.1, List.append_nil]
    stays := fun id ri found _ => ⟨Or.inl found, by rw [same]⟩
    closed := fun id none_ _ => ⟨none_, by rw [same]⟩ }

theorem Aside.respond (found : s.item id = some ri) (other : ri.type ≠ .send) (reply : Reply)
    (jsonpCallback : List Byte) : s.Aside (s.respond id reply jsonpCallback) := by
  have same : ∀ k, k ≠ id →
      (responses (s.respond id reply jsonpCallback).out).count k = (responses s.out).count k := by
    intro k differ
    show (responses (s.out ++ [.respond id reply jsonpCallback])).count k = _
    rw [responses_append]
    show (responses s.out ++ [id]).count k = _
    rw [List.count_append, List.count_singleton, if_neg (by simpa using differ.symm), Nat.add_zero]
  exact { Aside.refl s with
    read := by
      show readings (s.out ++ [_]) = _
      rw [readings_append]
      exact List.append_nil _
    stays := fun k ri' found' send => ⟨Or.inl found', same k (by
      rintro rfl
      cases found.symm.trans found'
      exact other send)⟩
    closed := fun k none_ _ => ⟨none_, same k (by
      rintro rfl
      cases found.symm.trans none_)⟩ }

theorem Aside.modify (s : Session) {id : Nat} {f : RequestItem → RequestItem}
    (other : ∀ ri, s.item id = some ri → ri.type ≠ .send ∧ (f ri).type ≠ .send) :
    s.Aside (s.modify id f) := by
  have kept : ∀ k ri, s.item k = some ri → ri.type = .send → (s.modify id f).item k = some ri := by
    intro k ri found send
    rw [item_modify, if_neg]
    · exact found
    · rintro rfl
      exact (other ri found).1 send
  exact { Aside.refl s with
    back := fun k ri found send => by
      rw [item_modify] at found
      split at found
      · next same =>
        obtain ⟨ri', found', rfl⟩ := map_eq_some_iff.mp found
        exact absurd send (other ri' (same ▸ found')).2
      · exact found
    on := fun _ k ri found send _ => kept k ri found send
    stays := fun k ri found send => ⟨Or.inl (kept k ri found send), rfl⟩
    closed := fun k none_ _ => by
      refine ⟨?_, rfl⟩
      rw [item_modify]
      split
      · rw [none_]
        rfl
      · exact none_ }

theorem Aside.insert (fresh : s.item id = none) (new : ¬ s.settled id) (other : ri.type ≠ .send) :
    s.Aside (s.insert id ri) := by
  have kept : ∀ k, k ≠ id → (s.insert id ri).item k = s.item k := fun k differ => by
    rw [item_insert, if_neg differ]
  have differs : ∀ k ri', s.item k = some ri' → k ≠ id := by
    rintro k ri' found rfl
    cases fresh.symm.trans found
  exact { Aside.refl s with
    back := fun k ri' found send => by
      rw [item_insert] at found
      split at found
      · cases found
        exact absurd send other
      · exact found
    on := fun _ k ri' found _ _ => (kept k (differs k ri' found)).trans found
    stays := fun k ri' found _ => ⟨Or.inl ((kept k (differs k ri' found)).trans found), rfl⟩
    closed := fun k none_ settled => ⟨(kept k (by rintro rfl; exact new settled)).trans none_,
      rfl⟩ }

theorem Aside.background (fresh : s.item id = none) (new : ¬ s.settled id)
    (jsonpCallback : List Byte) (reply : Reply) :
    s.Aside (s.background id jsonpCallback reply) := by
  have other :
      ({ jsonpCallback, type := .background, responded := true } : RequestItem).type ≠ .send :=
    fun send => by cases send
  refine (Aside.insert fresh new other).trans (Aside.respond ?_ other reply jsonpCallback)
  rw [item_insert, if_pos rfl]

theorem Aside.remove (s : Session) {id : Nat}
    (other : ∀ ri, s.item id = some ri → ri.type = .send → ri.responded = true ∧
    id ∈ responses s.out) :
    s.Aside (s.removeRequestItem id) :=
  { Aside.refl s with
    back := fun k ri found _ => by
      rw [item_remove] at found
      split at found
      · cases found
      · exact found
    on := fun _ k ri found send open_ => by
      rw [item_remove, if_neg]
      · exact found
      · rintro rfl
        exact absurd ((other ri found send).1.symm.trans open_) (by decide)
    stays := fun k ri found send => by
      refine ⟨?_, rfl⟩
      rw [item_remove]
      split
      · next same =>
        rw [same] at found ⊢
        exact Or.inr ⟨rfl, Or.inl (other ri found send).2⟩
      · exact Or.inl found
    closed := fun k none_ _ => by
      refine ⟨?_, rfl⟩
      rw [item_remove]
      split
      · rfl
      · exact none_ }

theorem ofReq_not_send {ri : RequestItem} (kind : ri.ofReq = true) : ri.type ≠ .send := by
  simp only [RequestItem.ofReq, decide_eq_true_eq] at kind
  exact kind.2

def Polls (s : Session) : Prop := ∀ id ri, s.req = some id → s.item id = some ri → ri.type ≠ .send

theorem Linked.polling (linked : s.Linked) : s.Polls := by
  intro id ri mine found
  obtain ⟨ri', found', kind⟩ := linked.owned id mine
  cases found.symm.trans found'
  exact ofReq_not_send kind

theorem Polls.none (alone : s.req = none) : s.Polls :=
  fun id _ mine => by cases alone.symm.trans mine

theorem Aside.cleanup (polls : s.Polls) (ended : s.cleanup = some t) : s.Aside t := by
  rw [cleanup_eq] at ended
  obtain ⟨there, eq⟩ := Option.ite_none_right_eq_some.mp ended
  rw [← Option.some.inj eq]
  have same : ∀ k, s.req ≠ some k →
      (responses s.cleaned.out).count k = (responses s.out).count k := by
    intro k differ
    show (responses (s.out ++ _ ++ _)).count k = _
    rw [responses_append, responses_append, List.count_append, List.count_append]
    cases req : s.req with
    | none => cases s.manager <;> simp [responses]
    | some id =>
      have differ : id ≠ k := fun same => differ (by rw [req, same])
      cases s.manager <;> simp [responses, differ]
  exact { Aside.refl s with
    read := by
      show readings (s.out ++ _ ++ _) = _
      rw [readings_append, readings_append]
      cases s.req <;> cases s.manager <;> simp [readings]
    manager := by rintro ⟨⟩
    sock := by rintro ⟨⟩
    back := by rintro _ _ ⟨⟩
    on := by rintro ⟨⟩
    stays := fun k ri found send =>
      ⟨Or.inr ⟨rfl, Or.inr rfl⟩, same k fun mine => polls k ri mine found send⟩
    closed := fun k none_ _ => ⟨rfl, same k fun mine => by
      rw [mine] at there
      simp [none_] at there⟩ }

theorem Aside.answer (found : s.item id = some ri) (kind : ri.type ≠ .send) {f : RequestItem →
    RequestItem} (still : (f ri).type ≠ .send) (reply : Reply) (jsonpCallback : List Byte) :
    s.Aside ((s.modify id f).respond id reply jsonpCallback) := by
  refine (Aside.modify s fun ri' found' => ?_).trans (Aside.respond ?_ still reply jsonpCallback)
  · cases found.symm.trans found'
    exact ⟨kind, still⟩
  · rw [item_modify, if_pos rfl, found]
    rfl

theorem Aside.finishWrite (polls : s.Polls) {frames bytes : Nat}
    {texts : List (List Byte)} (finished : s.finishWrite frames bytes texts = some t) :
    s.Aside t := by
  obtain ⟨id, mine, finished'⟩ := bind_eq_some_iff.mp finished
  obtain ⟨ri, found, -⟩ := bind_eq_some_iff.mp finished'
  have kind := polls id ri mine found
  rw [finishWrite_eq mine found] at finished
  cases finished
  split
  · exact { Aside.answer
      (f := fun ri => { ri with receiveFrames := frames, receiveBytes := bytes, responded := true })
      found kind kind (.a texts) ri.jsonpCallback with }
  · split
    · have lingered : s.Aside (applyLinger { s with closeSent := true }) :=
        { Aside.emit s (.setLinger s.closeValue.1 s.closeValue.2) ⟨rfl, rfl⟩ with }
      refine lingered.trans
        (Aside.answer (s := applyLinger { s with closeSent := true }) found kind ?_ _ _)
      exact fun send => by cases send
    · refine Aside.modify s fun ri' found' => ?_
      cases found.symm.trans found'
      exact ⟨kind, kind⟩

theorem Aside.tryWrite (polls : s.Polls)
    (wrote : s.tryWrite lib = some t) : s.Aside t := by
  rcases tryWrite_cases wrote with ⟨rfl, -⟩ | ⟨id, ri, messages, rest, mine, found, waits, -, -,
    ⟨-, rfl⟩ | ⟨-, finished⟩⟩
  · exact .refl _
  · exact { Aside.emit s .writeBytesChanged ⟨rfl, rfl⟩ with }
  · have taken : s.Aside { s with
        outFrames := rest
        pendingWrites :=
          s.pendingWrites ++ messages.map fun message => some (bytesOf message).length } :=
      { Aside.refl s with }
    exact taken.trans (Aside.finishWrite polls finished)

theorem Aside.handleWritten {count contentBytes : Nat}
    (handled : s.handleWritten count contentBytes = some t) : s.Aside t := by
  unfold Session.handleWritten at handled
  split at handled
  · cases handled
    exact Aside.emit s _ ⟨rfl, rfl⟩
  · split at handled
    · cases handled
    · cases handled
      exact { Aside.emit s (.framesWritten _ _) ⟨rfl, rfl⟩ with }

theorem Aside.finishUpdate (s : Session) : s.Aside s.finishUpdate := by
  unfold Session.finishUpdate
  split
  · exact { Aside.emit s (.framesWritten s.pendingWrittenFrames s.pendingWrittenBytes)
      ⟨rfl, rfl⟩ with }
  · exact .refl s

variable {f : Frame} {frames : List Frame}

theorem took_self (found : s.item id = some ri) :
    (s.took id ri f frames).item id = some { ri with
      sendFrames := frames
      sendBytes := ri.sendBytes - f.data.length
      responded := ri.responded || frames.isEmpty } := by
  rw [item_took, if_pos rfl, found]
  rfl

theorem took_cases {k : Nat} {ri' : RequestItem} (found : s.item id = some ri)
    (there : (s.took id ri f frames).item k = some ri') :
    (k = id ∧ ri' = { ri with
      sendFrames := frames
      sendBytes := ri.sendBytes - f.data.length
      responded := ri.responded || frames.isEmpty }) ∨ k ≠ id ∧ s.item k = some ri' := by
  rw [item_took] at there
  split at there
  · next same =>
    rw [same, found] at there
    exact Or.inl ⟨same, (Option.some.inj there).symm⟩
  · next other => exact Or.inr ⟨other, there⟩

theorem Receiving.took (receiving : s.Receiving) (found : s.item id = some ri)
    (send : ri.type = .send) (waits : ri.responded = false) (next : ri.sendFrames = f :: frames) :
    (s.took id ri f frames).Receiving := by
  have old : ∀ {k ri'}, (s.took id ri f frames).item k = some ri' → ri'.type = .send → k = id := by
    intro k ri' there send'
    rcases took_cases found there with ⟨same, -⟩ | ⟨other, there'⟩
    · exact same
    · exact absurd (receiving.lone k ri' id ri there' send' found send) other
  have now : ∀ {k ri'}, (s.took id ri f frames).item k = some ri' → ri'.type = .send →
      ri' = { ri with
      sendFrames := frames
      sendBytes := ri.sendBytes - f.data.length
      responded := ri.responded || frames.isEmpty } := by
    intro k ri' there send'
    rcases took_cases found there with ⟨-, same⟩ | ⟨other, -⟩
    · exact same
    · exact absurd (old there send') other
  exact {
    bytes := by
      show s.inBytes + f.data.length = sizeOf (s.inFrames ++ [f])
      rw [sizeOf_append, receiving.bytes]
      rfl
    lone := fun k ri₁ k' ri₂ there send₁ there' send₂ =>
      (old there send₁).trans (old there' send₂).symm
    small := fun k ri' there send' g mem => by
      rw [now there send'] at mem
      exact receiving.small id ri found send g (by rw [next]; exact List.mem_cons_of_mem f mem)
    done := fun k ri' there send' responded => by
      rw [now there send'] at responded ⊢
      rw [waits, Bool.false_or] at responded
      exact List.isEmpty_iff.mp responded
    counts := fun k ri' there send' => by
      have none_ := receiving.counts id ri found send
      rw [waits] at none_
      show (responses (s.out ++ if frames = [] then [.respond id .ok ri.jsonpCallback]
        else [])).count k = _
      rw [old there send', now there send', responses_append, List.count_append, none_, waits]
      cases frames with
      | nil => simp [responses]
      | cons g frames => simp [responses] }

theorem Holds.took {sofar : List Frame} (receiving : s.Receiving) (holds : s.Holds sofar)
    (there : s.manager = true) (found : s.item id = some ri) (send : ri.type = .send)
    (waits : ri.responded = false) (next : ri.sendFrames = f :: frames) :
    (s.took id ri f frames).Holds sofar := by
  obtain ⟨rest, eq, waiting⟩ := holds
  have rest_ : rest = f :: frames := by
    rcases waiting there with ⟨id', ri', found', send', -, rfl⟩ | ⟨none_, -⟩
    · cases receiving.lone id ri id' ri' found send found' send'
      cases found.symm.trans found'
      exact next
    · exact absurd ((none_ id ri found send).symm.trans waits) (by decide)
  refine ⟨frames, ?_, fun _ => ?_⟩
  · have same : readings (s.took id ri f frames).out = readings s.out := by
      show readings (s.out ++ if frames = [] then _ else _) = _
      rw [readings_append]
      split <;> exact List.append_nil _
    rw [same, ← eq, rest_]
    show readings s.out ++ (s.inFrames ++ [f]) ++ frames = _
    simp
  · by_cases last : frames = []
    · refine Or.inr ⟨fun k ri' there' send' => ?_, last⟩
      rcases took_cases found there' with ⟨-, rfl⟩ | ⟨other, found'⟩
      · simp [last]
      · exact absurd (receiving.lone k ri' id ri found' send' found send) other
    · exact Or.inl ⟨id, _, took_self found, send, by simp [waits, last], rfl⟩

theorem Asked.took {k : Nat} (asked : s.Asked k)
    (found : s.item id = some ri) (send : ri.type = .send) : (s.took id ri f frames).Asked k := by
  by_cases same : k = id
  · rw [same]
    exact Or.inl ⟨_, took_self found, send⟩
  · have item_ : (s.took id ri f frames).item k = s.item k := by rw [item_took, if_neg same]
    have count : (responses (s.took id ri f frames).out).count k = (responses s.out).count k := by
      have differ : id ≠ k := fun eq => same eq.symm
      show (responses (s.out ++ if frames = [] then [.respond id .ok ri.jsonpCallback]
        else [])).count k = _
      rw [responses_append, List.count_append]
      cases frames <;> simp [responses, differ]
    rcases asked with ⟨ri', found', send'⟩ | ⟨none_, once⟩
    · exact Or.inl ⟨ri', item_.trans found', send'⟩
    · exact Or.inr ⟨item_.trans none_, by rw [count]; exact once⟩

theorem Received.takeSends (linked : s.Linked) (receiving : s.Receiving) (mode : s.mode = .http)
    (asked : ∀ id ∈ past.asked, s.Asked id) (holds : s.Holds past.frames) {ready goes : Bool}
    (read : s.tryRead lib = some (t, ready, goes)) : t.Received lib past := by
  obtain ⟨u, _, eq, takes, some_, idle⟩ := tryRead_http lib mode linked.sends
  rw [eq] at read
  cases read
  obtain ⟨-, receiving', mode', holds', asked'⟩ := takes.rule
    (fun u => u.Linked ∧ u.Receiving ∧ u.mode = .http ∧ u.Holds past.frames ∧
      ∀ id ∈ past.asked, u.Asked id)
    ⟨linked, receiving, mode, holds, asked⟩
    fun u id ri f frames inv found sends waits next bytes _ =>
      ⟨inv.1.took found sends next bytes, inv.2.1.took found sends waits next, inv.2.2.1,
        inv.2.2.2.1.took inv.2.1 (inv.1.there found) found sends waits next,
        fun k mem => (inv.2.2.2.2 k mem).took found sends⟩
  have moves : u.Moves := by
    intro id ri found send open_ _
    cases ready with
    | true => exact some_ rfl
    | false =>
      obtain ⟨rfl, none_ | ⟨id', ri', f, frames, found', send', next, full⟩⟩ := idle rfl
      · exact absurd ((none_ id ri found send).symm.trans open_) (by decide)
      · intro empty
        have small :=
          receiving.small id' ri' found' send' f (by rw [next]; exact List.mem_cons_self)
        rw [receiving.bytes, empty] at full
        exact absurd full (by simpa [sizeOf] using small)
  have received : u.Received lib past := { receiving' with
    carries := by rw [mode']; decide
    asked := asked'
    moves := moves
    still := fun framed => Mode.noConfusion (mode'.symm.trans framed)
    holds := fun _ => holds'
    wraps := fun framed => Mode.noConfusion (mode'.symm.trans framed) }
  split
  · exact received.aside (Aside.emit u .readyRead ⟨rfl, rfl⟩)
  · exact received

theorem Received.readSock (linked : s.Linked) (bytes : s.inBytes = sizeOf s.inFrames)
    (mode : s.mode = .webSocketFramed) (asked : ∀ id ∈ past.asked, s.Asked id)
    (wraps : s.Wraps lib past.frames)
    (there : s.sock = true) {ready goes : Bool} (read : s.tryRead lib = some (t, ready, goes)) :
    t.Received lib past := by
  obtain ⟨alone, none_⟩ := linked.carried (by rw [mode]; decide)
  obtain ⟨u, _, over_, done, frames, on, eq⟩ := tryRead_framed lib mode there
  rw [eq] at read
  have items : ∀ id, u.item id = none := by
    rw [on.state]
    exact none_
  have bytes : u.inBytes = sizeOf u.inFrames := by
    rw [on.state]
    show s.inBytes + sizeOf frames = sizeOf (s.inFrames ++ frames)
    rw [sizeOf_append, bytes]
  have asked : ∀ id ∈ past.asked, u.Asked id := by
    intro id mem
    rw [on.state]
    exact asked id mem
  obtain ⟨tidy, before, rest, eq', made, same⟩ := wraps
  have framed : u.mode = .webSocketFramed := by
    rw [on.state]
    exact mode
  have outs : readings u.out ++ u.inFrames = readings s.out ++ s.inFrames ++ frames := by
    rw [on.state]
    exact (List.append_assoc ..).symm
  have made' : Unwraps lib (before ++ done) (readings u.out ++ u.inFrames) := by
    rw [outs]
    exact made.append on.made
  have received : ∀ sock rest, s.inWrappedFrames ++ s.sockFrames = done ++ rest →
      (sock = true → rest = u.inWrappedFrames ++ u.sockFrames) →
      (sock = true → u.inFrames ≠ [] ∨ splitMessage u.inWrappedFrames = none ∧ u.sockFrames = []) →
      ({ u with sock } : Session).Received lib past := by
    intro sock rest' split_ left still
    exact {
      bytes := bytes
      lone := fun id ri _ _ found => by cases (items id).symm.trans found
      small := fun id ri found => by cases (items id).symm.trans found
      done := fun id ri found => by cases (items id).symm.trans found
      counts := fun id ri found => by cases (items id).symm.trans found
      carries := by rw [framed]; decide
      asked := asked
      moves := fun id ri found => by cases (items id).symm.trans found
      still := fun _ _ there _ => still there
      holds := fun http => Mode.noConfusion (framed.symm.trans http)
      wraps := fun _ => ⟨tidy, before ++ done, rest', by
        rw [eq', same there, split_, List.append_assoc], made', left⟩ }
  cases over_ with
  | true =>
    obtain ⟨v, ended, eq⟩ := map_eq_some_iff.mp read
    cases eq
    obtain ⟨rest', split_, -⟩ := on.refused rfl
    have gone := received false rest' split_ (fun sock => Bool.noConfusion sock) fun sock =>
      Bool.noConfusion sock
    have idle : ({ u with sock := false, state := .idle } : Session).Received lib past :=
      { gone with }
    have ended' : ({ u with sock := false, state := .idle } : Session).cleanup = some v := by
      rw [cleanup_eq] at ended ⊢
      exact ended
    have alone : u.req = none := by
      rw [on.state]
      exact alone
    have polls : ({ u with sock := false, state := .idle } : Session).Polls := Polls.none alone
    exact (idle.aside (Aside.cleanup polls ended')).aside (Aside.emit v .error ⟨rfl, rfl⟩)
  | false =>
    cases read
    have here : u.Received lib past := by
      refine received u.sock _ (on.rest rfl).1 (fun _ => rfl) fun _ => ?_
      rcases (on.rest rfl).2 with full | none_
      · refine Or.inl fun empty => ?_
        rw [bytes, empty] at full
        exact absurd full (by decide)
      · exact Or.inr none_
    cases ready with
    | true => exact here.aside (Aside.emit u .readyRead ⟨rfl, rfl⟩)
    | false => exact here

theorem answerable_item (answers : s.answerable = some (id, ri)) : s.req = some id ∧
    s.item id = some ri := by
  obtain ⟨id', mine, answers⟩ := bind_eq_some_iff.mp answers
  obtain ⟨ri', found, answers⟩ := bind_eq_some_iff.mp answers
  split at answers
  · cases answers
  · cases answers
    exact ⟨mine, found⟩

theorem Aside.req_bytesWritten (receiving : s.Receiving) {finished : Bool}
    (responded : (s.item id).any (fun ri => ri.responded) = true)
    (written : s.req_bytesWritten id finished = some t) : s.Aside t := by
  unfold Session.req_bytesWritten at written
  obtain ⟨ri, found, written⟩ := bind_eq_some_iff.mp written
  rw [found] at responded
  have responded : ri.responded = true := responded
  have left : ∀ {u : Session}, s.Aside u → u.requests = s.requests → u.out = s.out →
      s.Aside (u.removeRequestItem id) := by
    intro u aside same out
    refine aside.trans (Aside.remove u fun ri' found' send => ?_)
    have found'' : s.item id = some ri' := by rw [← found', item, item, same]
    cases found.symm.trans found''
    have count := receiving.counts id ri found send
    rw [if_pos responded] at count
    refine ⟨responded, List.count_pos_iff.mp ?_⟩
    rw [out, count]
    decide
  have alone : s.Aside ({ s with req := none }.removeRequestItem id) :=
    left { Aside.refl s with } rfl rfl
  split at written
  · cases written
    exact .refl s
  · dsimp only at written
    split at written
    · split at written
      · cases written
        exact { left
          (u := { s with state := .connected, req := none }) { Aside.refl s with } rfl rfl with }
      · cases written
    · split at written
      · split at written
        · obtain ⟨u, ended, eq⟩ := bind_eq_some_iff.mp written
          cases eq
          have over_ : s.Aside ({ Session.removeRequestItem { s with req := none } id with
              state := .idle } : Session) :=
            { alone with }
          exact (over_.trans (Aside.cleanup (Polls.none rfl) ended)).trans
            (Aside.emit u .closed ⟨rfl, rfl⟩)
        · split at written
          · have timed : s.Aside ((Session.removeRequestItem { s with req := none } id).startTimer
                UNCONNECTED_TIMEOUT) :=
              { alone with }
            exact timed.trans (Aside.handleWritten written)
          · cases written
            exact alone
      · cases written
        exact left (.refl s) rfl rfl

theorem Aside.accept (polls : s.Polls) {reason : List Byte} {headers : List (List Byte × List Byte)}
    (accepted : s.accept reason headers = some t) : s.Aside t := by
  unfold Session.accept at accepted
  split at accepted
  · cases accepted
    exact .refl s
  · split at accepted
    · obtain ⟨⟨id, ri⟩, answers, eq⟩ := bind_eq_some_iff.mp accepted
      cases eq
      obtain ⟨mine, found⟩ := answerable_item answers
      exact Aside.answer found (polls id ri mine found) (fun send => by cases send) _ _
    · split at accepted
      · cases accepted
      · have success := Aside.emit s (.sockRespondSuccess reason headers) ⟨rfl, rfl⟩
        split at accepted
        · cases accepted
          have wrote := success.trans (Aside.emit _ (.sockWrite .o) ⟨rfl, rfl⟩)
          exact { wrote with }
        · cases accepted
          exact { success with }

variable {body : List Byte}

theorem Aside.reject (polls : s.Polls) {code : Nat} {reason : List Byte}
    {headers : List (List Byte × List Byte)}
    (rejected : s.reject code reason headers body = some t) : s.Aside t := by
  unfold Session.reject at rejected
  split at rejected
  · cases rejected
    exact .refl s
  · split at rejected
    · obtain ⟨⟨id, ri⟩, answers, eq⟩ := bind_eq_some_iff.mp rejected
      cases eq
      obtain ⟨mine, found⟩ := answerable_item answers
      exact Aside.answer found (polls id ri mine found) (fun send => by cases send) _ _
    · split at rejected
      · cases rejected
      · cases rejected
        exact Aside.emit s _ ⟨rfl, rfl⟩

theorem Aside.writeFrame (polls : s.Polls) {frame : Frame}
    (wrote : s.writeFrame lib frame = some t) : s.Aside t := by
  unfold Session.writeFrame at wrote
  split at wrote
  · cases wrote
  · split at wrote
    · split at wrote
      · cases wrote
      · cases wrote
        exact { Aside.emit s (.sockWriteFrame frame) ⟨rfl, rfl⟩ with }
    · split at wrote
      · cases wrote
        exact { Aside.refl s with updating := fun updated => Bool.noConfusion updated }
      · split at wrote
        · split at wrote
          · cases wrote
            exact { Aside.refl s with updating := fun updated => Bool.noConfusion updated }
          · have added : s.Aside { s with outFrames := s.outFrames ++ [frame] } :=
              { Aside.refl s with }
            exact added.trans (Aside.tryWrite polls wrote)
        · split at wrote
          · cases wrote
          · cases wrote
            exact { Aside.emit s (.sockWrite (.a [lib.fromUtf8 frame.data])) ⟨rfl, rfl⟩ with }

theorem Aside.close (linked : s.Linked) {code : Int} {reason : List Byte}
    (closed : s.close lib code reason = some t) : s.Aside t := by
  unfold Session.close at closed
  split at closed
  · cases closed
  · dsimp only at closed
    split at closed
    · split at closed
      · next away =>
        obtain ⟨u, ended, eq⟩ := bind_eq_some_iff.mp closed
        cases eq
        have lingered : s.Aside
            (applyLinger { s with state := .idle, closeCode := code, closeReason := reason }) :=
          { Aside.emit s (.setLinger (Session.closeValue
            { s with state := .idle, closeCode := code, closeReason := reason }).1
              (Session.closeValue { s with
                state := .idle, closeCode := code, closeReason := reason }).2) ⟨rfl, rfl⟩ with }
        have over_ := lingered.trans (Aside.cleanup (Polls.none (linked.away away)) ended)
        exact { over_ with }
      · have closing : s.Aside { s with
          state := .closing, closeCode := code, closeReason := reason } := { Aside.refl s with }
        exact closing.trans (Aside.tryWrite linked.polling closed)
    · split at closed
      · cases closed
      · cases closed
        exact { Aside.emit s (.sockClose code reason) ⟨rfl, rfl⟩ with }

theorem Aside.timeout (linked : s.Linked) (expired : s.keepAliveTimer_timeout = some t) :
    s.Aside t := by
  unfold keepAliveTimer_timeout at expired
  split at expired
  · cases expired
  · split at expired
    · next id mine =>
      obtain ⟨⟨id', ri⟩, answers, expired⟩ := bind_eq_some_iff.mp expired
      cases expired
      obtain ⟨mine', found⟩ := answerable_item answers
      cases mine.symm.trans mine'
      have kind := linked.polling id ri mine found
      exact Aside.answer (f := fun ri => { ri with responded := true }) found kind kind _ _
    · next alone =>
      obtain ⟨u, ended, eq⟩ := bind_eq_some_iff.mp expired
      cases eq
      have over_ : s.Aside { s with state := .idle } := { Aside.refl s with }
      exact (over_.trans (Aside.cleanup (Polls.none alone) ended)).trans
        (Aside.emit u .error ⟨rfl, rfl⟩)
  · split at expired
    · cases expired
    · cases expired
      exact { Aside.emit s (.sockWrite .h) ⟨rfl, rfl⟩ with }

theorem Aside.resume (linked : s.Linked) (resumed : s.resume = some t) : s.Aside t := by
  unfold Session.resume at resumed
  split at resumed
  · cases resumed
  · next frames bytes texts paused eq =>
    have left : s.Aside { s with paused } := { Aside.refl s with }
    exact left.trans (Aside.finishWrite linked.polling resumed)
  · next paused eq =>
    cases resumed
    have left : s.Aside { s with paused } := { Aside.refl s with }
    exact left.trans (Aside.finishUpdate _)

def asking (lib : Lib) (s : Session) (req : Request) (lastPart body : List Byte) :
    Option (List (List Byte)) :=
  if s.requests.values.any fun ri => ri.type = .send then none
  else (strings lib (payloadOf lib req lastPart body)).filter fun texts => texts.all fun text =>
    text.length ≤ BUFFER_SIZE

def sent (lib : Lib) (s : Session) (past : Past) (req : Request) (lastPart body : List Byte) :
    Past :=
  if lastPart = ascii "xhr_send" ∨ lastPart = ascii "jsonp_send" then
    match s.asking lib req lastPart body with
    | some texts =>
      { past with
        frames := past.frames ++ texts.map Frame.ofText
        asked := if texts = [] then past.asked else req.id :: past.asked }
    | none => past
  else past

def dropped (s : Session) (past : Past) (id : Nat) : Past :=
  match s.item id with
  | some ri =>
    if ri.type = .send ∧ ri.responded = false then
      { past with
        frames := past.frames.take (past.frames.length - ri.sendFrames.length)
        asked := past.asked.filter fun k => k ≠ id }
    else past
  | none => past

def record (lib : Lib) (s : Session) (past : Past) : Event → Past
  | .handleRequest req _ lastPart body => s.sent lib past req lastPart body
  | .req_error id _ => s.dropped past id
  | .arrive frames => if s.mode = .webSocketFramed then
    { past with frames := past.frames ++ frames, due := true } else past
  | .sock_readyRead | .doUpdate => { past with due := false }
  | _ => past

/-- The frames that come continue a message exactly where one is open, and no update is left
    for a socket that is gone. -/
def tidy (s : Session) : Event → Bool
  | .arrive frames => s.mode ≠ .webSocketFramed ||
      tidyFrom (((s.inWrappedFrames ++ s.sockFrames).getLast?.map Frame.more).getD false) frames
  | .doUpdate => s.errored || s.mode ≠ .webSocketFramed || s.sock
  | _ => true

theorem sending_iff :
    (s.requests.values.any fun ri => ri.type = .send) = true ↔
    ∃ id ri, s.item id = some ri ∧ ri.type = .send := by
  constructor
  · intro some_
    obtain ⟨ri, mem, send⟩ := List.any_eq_true.mp some_
    obtain ⟨⟨id, ri'⟩, there, rfl⟩ := List.mem_map.mp mem
    exact ⟨id, ri', Hash.mem_iff_get?.mp there, of_decide_eq_true send⟩
  · rintro ⟨id, ri, found, send⟩
    exact List.any_eq_true.mpr ⟨ri, List.mem_map.mpr ⟨(id, ri), Hash.mem_iff_get?.mpr found, rfl⟩,
      decide_eq_true send⟩

variable {req : Request} {lastPart : List Byte}

theorem asking_some {texts : List (List Byte)} :
    s.asking lib req lastPart body = some texts ↔
      (s.requests.values.any fun ri => ri.type = .send) = false ∧
      ∃ items, lib.fromString (payloadOf lib req lastPart body) = .list items ∧
        payloadFrames items = .ok (texts.map Frame.ofText) := by
  unfold asking
  split
  · next busy => simp [busy]
  · next free =>
    have free : (s.requests.values.any fun ri => ri.type = .send) = false := by simpa using free
    rw [Option.filter_eq_some_iff, strings_some]
    constructor
    · rintro ⟨⟨items, parsed, all, rfl⟩, small⟩
      refine ⟨free, items, parsed, payloadFrames_ok.mpr ⟨all, fun data mem => ?_, rfl⟩⟩
      exact of_decide_eq_true
        (List.all_eq_true.mp small data (List.mem_filterMap.mpr ⟨some data, mem, rfl⟩))
    · rintro ⟨-, items, parsed, valid⟩
      obtain ⟨all, small, same⟩ := payloadFrames_ok.mp valid
      have eq : texts = items.filterMap fun item => item :=
        List.map_injective_iff.mpr (fun _ _ eq => (Frame.mk.inj eq).2.1) same
      refine ⟨⟨items, parsed, all, eq⟩, List.all_eq_true.mpr fun data mem => decide_eq_true
        (small data ?_)⟩
      rw [eq] at mem
      obtain ⟨item, there, rfl⟩ := List.mem_filterMap.mp mem
      exact there

theorem handleRequest_refused {jsonpCallback : List Byte}
    (sends : lastPart = ascii "xhr_send" ∨ lastPart = ascii "jsonp_send")
    (refused : s.asking lib req lastPart body = none) :
    ∃ message, s.handleRequest lib req jsonpCallback lastPart body =
      some (s.background req.id jsonpCallback (.error 400 (ascii "Bad Request") message)) := by
  have other : ¬ (lastPart = ascii "xhr" ∨ lastPart = ascii "jsonp") := by
    rcases sends with rfl | rfl <;> decide
  unfold handleRequest
  rw [if_neg other, if_pos sends]
  split
  · exact ⟨_, rfl⟩
  · next free =>
    split
    · next items parsed =>
      split
      · exact ⟨_, rfl⟩
      · next valid =>
        have free : (s.requests.values.any fun ri => ri.type = .send) = false := by simpa using free
        have some_text : s.asking lib req lastPart body = some [] :=
          asking_some.mpr ⟨free, items, parsed, valid⟩
        cases refused.symm.trans some_text
      · next frames _ valid =>
        have free : (s.requests.values.any fun ri => ri.type = .send) = false := by simpa using free
        obtain ⟨texts, -, rfl⟩ := strings_of_payload parsed valid
        cases refused.symm.trans (asking_some.mpr ⟨free, items, parsed, valid⟩)
    · exact ⟨_, rfl⟩

theorem handleRequest_asking {jsonpCallback : List Byte} {texts : List (List Byte)}
    (sends : lastPart = ascii "xhr_send" ∨ lastPart = ascii "jsonp_send")
    (asked : s.asking lib req lastPart body = some texts) :
    s.handleRequest lib req jsonpCallback lastPart body =
      if texts = [] then some (s.background req.id jsonpCallback .ok)
      else ((s.insert req.id {
        jsonpCallback
        type := .send
        sendFrames := texts.map Frame.ofText
        sendBytes := sizeOf (texts.map Frame.ofText) }).tryRead lib).map fun result =>
          result.1 := by
  have other : ¬ (lastPart = ascii "xhr" ∨ lastPart = ascii "jsonp") := by
    rcases sends with rfl | rfl <;> decide
  obtain ⟨free, items, parsed, valid⟩ := asking_some.mp asked
  unfold handleRequest
  rw [if_neg other, if_pos sends, free, if_neg Bool.false_ne_true, parsed]
  dsimp only
  rw [valid]
  cases texts with
  | nil => rfl
  | cons text texts => rfl

theorem Received.insert {past : Past} (received : s.Received lib past) (http : s.mode = .http)
    (there : s.manager = true) (fresh : s.item id = none) (new : id ∉ responses s.out)
    (alone : ∀ id ri, s.item id = some ri → ri.type ≠ .send)
    {ri : RequestItem} (send : ri.type = .send) (waits : ri.responded = false)
    (small : ∀ f ∈ ri.sendFrames, f.data.length ≤ BUFFER_SIZE) :
    (s.insert id ri).Receiving ∧ (s.insert id ri).Holds (past.frames ++ ri.sendFrames) ∧
    ∀ k ∈ id :: past.asked, (s.insert id ri).Asked k := by
  have only : ∀ k ri', (s.insert id ri).item k = some ri' → ri'.type = .send →
      k = id ∧ ri' = ri := by
    intro k ri' found send'
    rw [item_insert] at found
    split at found
    · next same => exact ⟨same, (Option.some.inj found).symm⟩
    · exact absurd send' (alone k ri' found)
  have here : (s.insert id ri).item id = some ri := by rw [item_insert, if_pos rfl]
  refine ⟨?_, ?_, ?_⟩
  · exact {
      bytes := received.bytes
      lone := fun k ri₁ k' ri₂ found send₁ found' send₂ =>
        (only k ri₁ found send₁).1.trans (only k' ri₂ found' send₂).1.symm
      small := fun k ri' found send' => by
        rw [(only k ri' found send').2]
        exact small
      done := fun k ri' found send' responded => by
        rw [(only k ri' found send').2, waits] at responded
        cases responded
      counts := fun k ri' found send' => by
        obtain ⟨rfl, rfl⟩ := only k ri' found send'
        rw [waits]
        exact List.count_eq_zero.mpr new }
  · obtain ⟨rest, eq, waiting⟩ := received.holds http
    have none_ : rest = [] := by
      rcases waiting there with ⟨k, ri', found, send', -⟩ | ⟨-, rfl⟩
      · exact absurd send' (alone k ri' found)
      · rfl
    rw [none_, List.append_nil] at eq
    exact ⟨ri.sendFrames, by rw [← eq]; rfl, fun _ => Or.inl ⟨id, ri, here, send, waits, rfl⟩⟩
  · intro k mem
    by_cases same : k = id
    · rw [same]
      exact Or.inl ⟨ri, here, send⟩
    · have item_ : (s.insert id ri).item k = s.item k := by rw [item_insert, if_neg same]
      rcases received.asked k ((List.mem_cons.mp mem).resolve_left same) with ⟨ri', found,
        send'⟩ | ⟨none_, once⟩
      · exact Or.inl ⟨ri', item_.trans found, send'⟩
      · exact Or.inr ⟨item_.trans none_, once⟩

theorem Received.handleRequest (linked : s.Linked) (received : s.Received lib past)
    (http : s.mode = .http) (there : s.manager = true) (fresh : s.item req.id = none)
    (new : req.id ∉ responses s.out) {jsonpCallback : List Byte}
    (handled : s.handleRequest lib req jsonpCallback lastPart body = some t) :
    t.Received lib (s.sent lib past req lastPart body) := by
  have fresh_ := settled_new there new
  have answered : ∀ reply, (s.background req.id jsonpCallback reply).Received lib past :=
    fun reply => received.aside (Aside.background fresh fresh_ jsonpCallback reply)
  unfold sent
  by_cases sends : lastPart = ascii "xhr_send" ∨ lastPart = ascii "jsonp_send"
  · rw [if_pos sends]
    cases asked : s.asking lib req lastPart body with
    | none =>
      obtain ⟨message, eq⟩ := handleRequest_refused sends asked
      cases handled.symm.trans eq
      exact answered _
    | some texts =>
      rw [handleRequest_asking sends asked] at handled
      dsimp only
      by_cases none_ : texts = []
      · rw [if_pos none_] at handled ⊢
        cases handled
        rw [none_, List.map_nil, List.append_nil]
        exact answered _
      · rw [if_neg none_] at handled ⊢
        obtain ⟨⟨u, ready, goes⟩, read, rfl⟩ := map_eq_some_iff.mp handled
        obtain ⟨free, items, parsed, valid⟩ := asking_some.mp asked
        obtain ⟨-, small, same⟩ := payloadFrames_ok.mp valid
        have some_ : texts.map Frame.ofText ≠ [] := fun nil => none_ (List.map_eq_nil_iff.mp nil)
        have alone : ∀ id ri, s.item id = some ri → ri.type ≠ .send := by
          intro id ri found send
          rw [sending_iff.mpr ⟨id, ri, found, send⟩] at free
          cases free
        have linked' := @Linked.insert s req.id
          { jsonpCallback, type := .send, sendFrames := texts.map Frame.ofText, sendBytes :=
              sizeOf (texts.map Frame.ofText) }
          linked there fresh http rfl fun _ _ => ⟨some_, rfl⟩
        obtain ⟨receiving, holds, asked'⟩ :=
          @Received.insert lib s req.id past received http there fresh new alone
            { jsonpCallback, type := .send, sendFrames := texts.map Frame.ofText, sendBytes :=
                sizeOf (texts.map Frame.ofText) }
            rfl rfl fun f mem => by
              rw [same] at mem
              obtain ⟨data, there, rfl⟩ := List.mem_map.mp mem
              obtain ⟨item, there, rfl⟩ := List.mem_filterMap.mp there
              exact small data there
        exact Received.takeSends linked' receiving http asked' holds read
  · rw [if_neg sends]
    unfold Session.handleRequest at handled
    rw [if_neg sends] at handled
    split at handled
    · split at handled
      · cases handled
        exact answered _
      · split at handled
        · cases handled
          exact answered _
        · have polled : s.Aside (s.polled req.id jsonpCallback) :=
            { @Aside.insert s req.id { jsonpCallback, type := .receive } fresh fresh_
              (fun send => by cases send) with }
          refine received.aside (polled.trans (Aside.tryWrite ?_ handled))
          intro id ri mine found
          cases mine
          rw [item_polled, if_pos rfl] at found
          cases found
          exact fun send => by cases send
    · cases handled
      exact answered _

theorem Received.readFrame (received : s.Received lib past) (read : s.readFrame = some t) :
    t.Received lib past := by
  unfold Session.readFrame at read
  rw [if_neg received.carries] at read
  split at read
  · cases read
  · next f inFrames eq =>
    cases read
    have outs : ∀ rest, readings (s.out ++ [.read f]) ++ inFrames ++ rest = readings s.out ++
        s.inFrames ++ rest := by
      intro rest
      rw [readings_append, eq]
      simp [readings]
    have same : responses (s.out ++ [.read f]) = responses s.out := by
      rw [responses_append]
      exact List.append_nil _
    exact { received with
      bytes := by
        show s.inBytes - f.data.length = sizeOf inFrames
        rw [received.bytes, eq]
        simp [sizeOf]
      counts := fun id ri found send =>
        (congrArg (List.count id) same).trans (received.counts id ri found send)
      asked := fun id mem => by
        rcases received.asked id mem with there | ⟨none_, once⟩
        · exact Or.inl there
        · refine Or.inr ⟨none_, ?_⟩
          show List.count id (responses (s.out ++ [.read f])) = 1 ∨ _ ∧
            List.count id (responses (s.out ++ [.read f])) = 0
          rw [same]
          exact once
      moves := fun _ _ _ _ _ updated => Bool.noConfusion updated
      still := fun _ _ _ updated => Bool.noConfusion updated
      holds := fun http => by
        obtain ⟨rest, sofar, waits⟩ := received.holds http
        exact ⟨rest, (outs rest).trans sofar, waits⟩
      wraps := fun framed => by
        obtain ⟨tidy, done, rest, sofar, made, left⟩ := received.wraps framed
        refine ⟨tidy, done, rest, sofar, ?_, left⟩
        have outs := outs []
        rw [List.append_nil, List.append_nil] at outs
        exact outs ▸ made }

theorem Received.arrive (received : s.Received lib past) (there : s.sock = true)
    (fit : s.tidy (.arrive frames) = true) :
    ({ s with sockFrames := s.sockFrames ++ frames } : Session).Received lib
    (s.record lib past (.arrive frames)) := by
  unfold record
  dsimp only
  split
  · next framed =>
    exact { received with
      still := fun _ due => Bool.noConfusion due
      holds := fun http => Mode.noConfusion (framed.symm.trans http)
      wraps := fun _ => by
        obtain ⟨tidy, done, rest, sofar, made, left⟩ := received.wraps framed
        have left := left there
        refine ⟨?_, done, rest ++ frames, by rw [sofar, List.append_assoc], made, fun _ => by
          rw [left, List.append_assoc]⟩
        have more : tidyFrom (((s.inWrappedFrames ++ s.sockFrames).getLast?.map Frame.more).getD
            false) frames = true := by
          simpa [Session.tidy, framed] using fit
        rw [tidyFrom_append, tidy, Bool.true_and, sofar]
        rw [← left] at more
        cases last : rest.getLast? with
        | none =>
          rw [List.getLast?_eq_none_iff.mp last] at more ⊢
          rw [List.append_nil, unwraps_closed made]
          exact more
        | some f =>
          rw [List.getLast?_append, last]
          rw [last] at more
          exact more }
  · next other =>
    exact { received with
      still := fun framed => absurd framed other
      wraps := fun framed => absurd framed other }

theorem Received.drop (linked : s.Linked) (received : s.Received lib past)
    (found : s.item id = some ri) (send : ri.type = .send) (waits : ri.responded = false) :
    (s.removeRequestItem id).Received lib { past with
      frames := past.frames.take (past.frames.length - ri.sendFrames.length)
      asked := past.asked.filter fun k => k ≠ id } := by
  have http := linked.http found
  have old : ∀ {k ri'}, (s.removeRequestItem id).item k = some ri' →
      k ≠ id ∧ s.item k = some ri' := by
    intro k ri' found'
    rw [item_remove] at found'
    split at found'
    · cases found'
    · next other => exact ⟨other, found'⟩
  have none_ : ∀ k ri', (s.removeRequestItem id).item k = some ri' → ri'.type ≠ .send := by
    intro k ri' found' send'
    exact (old found').1 (received.lone k ri' id ri (old found').2 send' found send)
  exact {
    bytes := received.bytes
    lone := fun k ri' _ _ found' send' => absurd send' (none_ k ri' found')
    small := fun k ri' found' send' => absurd send' (none_ k ri' found')
    done := fun k ri' found' send' => absurd send' (none_ k ri' found')
    counts := fun k ri' found' send' => absurd send' (none_ k ri' found')
    carries := received.carries
    asked := fun k mem => by
      obtain ⟨mem, differ⟩ := List.mem_filter.mp mem
      have item_ : (s.removeRequestItem id).item k = s.item k := by
        rw [item_remove, if_neg (of_decide_eq_true differ)]
      rcases received.asked k mem with ⟨ri', found', send'⟩ | ⟨gone, once⟩
      · exact Or.inl ⟨ri', item_.trans found', send'⟩
      · exact Or.inr ⟨item_.trans gone, once⟩
    moves := fun k ri' found' send' => absurd send' (none_ k ri' found')
    still := fun framed => Mode.noConfusion (http.symm.trans framed)
    holds := fun _ => by
      obtain ⟨rest, eq, waiting⟩ := received.holds http
      have rest_ : rest = ri.sendFrames := by
        rcases waiting (linked.there found) with ⟨id', ri', found', send', -, rfl⟩ | ⟨all, -⟩
        · cases received.lone id ri id' ri' found send found' send'
          cases found.symm.trans found'
          rfl
        · exact absurd ((all id ri found send).symm.trans waits) (by decide)
      refine ⟨[], ?_,
        fun _ => Or.inr ⟨fun k ri' found' send' => absurd send' (none_ k ri' found'), rfl⟩⟩
      show readings s.out ++ s.inFrames ++ [] = past.frames.take
        (past.frames.length - ri.sendFrames.length)
      rw [← eq, ← rest_, List.append_nil, List.length_append, Nat.add_sub_cancel, List.take_left]
    wraps := fun framed => Mode.noConfusion (http.symm.trans framed) }

theorem Received.req_error (linked : s.Linked) (received : s.Received lib past)
    {disconnected : Bool} (failed : s.req_error id disconnected = some t) :
    t.Received lib (s.dropped past id) := by
  unfold Session.req_error at failed
  obtain ⟨ri, found, failed⟩ := bind_eq_some_iff.mp failed
  unfold dropped
  rw [found]
  dsimp only
  by_cases waits : ri.type = .send ∧ ri.responded = false
  · rw [if_pos waits]
    rw [if_pos (Or.inr waits.1)] at failed
    cases failed
    exact received.drop linked found waits.1 waits.2
  · rw [if_neg waits]
    have gone : s.Aside (s.removeRequestItem id) := Aside.remove s fun ri' found' send => by
      cases found.symm.trans found'
      have responded : ri.responded = true := by
        by_contra open_
        exact waits ⟨send, by simpa using open_⟩
      have count := received.counts id ri found send
      rw [if_pos responded] at count
      exact ⟨responded, List.count_pos_iff.mp (by rw [count]; decide)⟩
    split at failed
    · cases failed
      exact received.aside gone
    · dsimp only at failed
      split at failed
      · cases failed
      · have left : s.Aside ({ s with req := none }.removeRequestItem id) := { gone with }
        split at failed
        · cases failed
          have told := left.trans (Aside.emit _ .peerClosed ⟨rfl, rfl⟩)
          exact received.aside { told with }
        · obtain ⟨u, ended, eq⟩ := bind_eq_some_iff.mp failed
          cases eq
          have over_ : s.Aside ({ Session.removeRequestItem { s with req := none } id with
              state := .idle } : Session) :=
            { left with }
          refine received.aside ((over_.trans (Aside.cleanup (Polls.none rfl) ended)).trans
            (Aside.emit u _ ?_))
          split <;> exact ⟨rfl, rfl⟩

theorem Received.tryRead {past : Past} (linked : s.Linked) (receiving : s.Receiving)
    (carries : s.mode ≠ .webSocketPassthrough) (asked : ∀ id ∈ past.asked, s.Asked id)
    (holds : s.mode = .http → s.Holds past.frames) (wraps : s.mode = .webSocketFramed →
    s.Wraps lib past.frames)
    (there : s.mode = .webSocketFramed → s.sock = true) {ready goes : Bool}
    (read : s.tryRead lib = some (t, ready, goes)) : t.Received lib past := by
  cases mode : s.mode with
  | http => exact Received.takeSends linked receiving mode asked (holds mode) read
  | webSocketFramed =>
      exact Received.readSock linked receiving.bytes mode asked (wraps mode) (there mode) read
  | webSocketPassthrough => exact absurd mode carries

theorem Received.doUpdate (linked : s.Linked) (received : s.Received lib past)
    (fit : s.tidy .doUpdate = true) (updated : s.doUpdate lib = some t) :
    t.Received lib { past with due := false } := by
  unfold Session.doUpdate at updated
  dsimp only at updated
  split at updated
  · obtain ⟨u, ended, eq⟩ := bind_eq_some_iff.mp updated
    cases eq
    have idle : s.Aside { s with state := .idle } := { Aside.refl s with }
    have polls : ({ s with state := .idle } : Session).Polls := linked.polling
    rw [cleanup_eq] at ended
    obtain ⟨mine, eq⟩ := Option.ite_none_right_eq_some.mp ended
    have ended' : ({ s with state := .idle } : Session).cleanup =
        some (Session.cleaned { s with state := .idle }) := by
      rw [cleanup_eq]
      exact if_pos mine
    have over_ := received.aside (idle.trans (Aside.cleanup polls ended'))
    have cleaned : (Session.cleaned { s with updating := false, state := .idle }).Received lib
        { past with due := false } :=
      { over_ with
        moves := fun _ _ found => by cases found
        still := fun _ _ there => Bool.noConfusion there }
    rw [← Option.some.inj eq]
    exact cleaned.aside (Aside.emit _ .error ⟨rfl, rfl⟩)
  · next fine =>
    rw [if_neg received.carries] at updated
    obtain ⟨⟨u, ready, goes⟩, read, updated⟩ := bind_eq_some_iff.mp updated
    have there : s.mode = .webSocketFramed → s.sock = true := fun framed => by
      simpa [Session.tidy, fine, framed] using fit
    have on : u.Received lib { past with due := false } := by
      have linked' : ({ s with updating := false } : Session).Linked := { linked with }
      have receiving : ({ s with updating := false } : Session).Receiving :=
        { received.toReceiving with }
      exact Received.tryRead linked' receiving received.carries received.asked received.holds
        received.wraps there read
    dsimp only at updated
    split at updated
    · cases updated
      exact on
    · split at updated
      · cases updated
        have paused : u.Aside { u with paused := .doUpdate :: u.paused } := { Aside.refl u with }
        exact on.aside paused
      · cases updated
        exact on.aside (Aside.finishUpdate u)

/-- The messages that were taken from the socket are lists of strings, and the frames are
    these strings. -/
theorem Wraps.strings {sofar : List Frame} (wraps : s.Wraps lib sofar) :
    ∃ (taken rest : List Frame) (parts : List (List (List Byte))), sofar = taken ++ rest ∧
      messages sofar = messages taken ++ messages rest ∧
      (messages taken).map (PushpinSockJs.strings lib) = parts.map some ∧
      readings s.out ++ s.inFrames = parts.flatten.map Frame.ofText ∧
      (s.sock = true → rest = s.inWrappedFrames ++ s.sockFrames) := by
  obtain ⟨tidy, done, rest, rfl, made, left⟩ := wraps
  obtain ⟨split_, -, parts, known, eq⟩ := unwraps_strings made tidy
  exact ⟨done, rest, parts, rfl, split_, known, eq, left⟩

theorem Unwraps.front {done : List Frame} (made : Unwraps lib done frames) :
    done = [] ∧ frames = [] ∨ ∃ message rest, splitMessage done = some (message, rest) ∧
      (message.head?.any Frame.isText = true →
      (PushpinSockJs.strings lib (bytesOf message)).isSome = true) := by
  induction made with
  | nil => exact Or.inl ⟨rfl, rfl⟩
  | @skip done frames message before whole control ih =>
    rcases ih with ⟨rfl, -⟩ | ⟨first, rest, split_, valid⟩
    · refine Or.inr ⟨message, [], ?_, fun text => absurd (control.symm.trans text) (by decide)⟩
      simpa using splitMessage_whole whole []
    · exact Or.inr ⟨first, rest ++ message, splitMessage_append split_ message, valid⟩
  | @read done frames message more items before whole text fits parsed ok ih =>
    rcases ih with ⟨rfl, -⟩ | ⟨first, rest, split_, valid⟩
    · refine Or.inr ⟨message, [], by simpa using splitMessage_whole whole [], fun _ => ?_⟩
      obtain ⟨texts, known, -⟩ := strings_of_payload parsed ok
      rw [known]
      rfl
    · exact Or.inr ⟨first, rest ++ message, splitMessage_append split_ message, valid⟩

theorem Linked.malformed (linked : s.Linked) (framed : s.mode = .webSocketFramed)
    (there : s.sock = true) (room : s.inBytes < BUFFER_SIZE) {message rest : List Frame}
    (next : splitMessage (s.inWrappedFrames ++ s.sockFrames) = some (message, rest))
    (text : message.head?.any Frame.isText = true)
    (bad : PushpinSockJs.strings lib (bytesOf message) = none) :
    ∃ t, s.sock_readyRead lib = some t ∧ t.state = .idle ∧ t.sock = false ∧
      t.out.getLast? = some .error := by
  obtain ⟨u, ready, over_, done, frames, on, eq⟩ := tryRead_framed lib framed there
  have nothing : ∀ {left}, s.inWrappedFrames ++ s.sockFrames = done ++ left →
      done = [] ∧ frames = [] := by
    intro left all
    rcases Unwraps.front on.made with none_ | ⟨first, rest', split_, valid⟩
    · exact none_
    · have whole := splitMessage_append split_ left
      rw [← all, next] at whole
      cases whole
      have known := valid text
      rw [bad] at known
      cases known
  have alone : u.req = none := by
    rw [on.state]
    exact (linked.carried (by rw [framed]; decide)).1
  unfold sock_readyRead
  rw [if_pos framed, eq]
  cases over_ with
  | true =>
    rw [if_pos rfl, cleanup_eq]
    have ends : ({ u with state := .idle } : Session).req.all
        (fun id => (Session.item { u with state := .idle } id).isSome) = true := by
      show u.req.all _ = true
      rw [alone]
      rfl
    rw [if_pos ends]
    exact ⟨_, rfl, rfl, rfl, List.getLast?_concat⟩
  | false =>
    obtain ⟨all, rest_⟩ := on.rest rfl
    obtain ⟨rfl, rfl⟩ := nothing all
    rcases rest_ with full | ⟨open_, none_⟩
    · rw [on.state] at full
      have full : BUFFER_SIZE ≤ s.inBytes + 0 := full
      omega
    · rw [all, none_, List.nil_append, List.append_nil, open_] at next
      cases next

end Session
open Session

theorem step_received {s t : Session} {past : Past} {event : Event} (linked : s.Linked)
    (received : s.Received lib past) (can : possible s event = true) (fit : s.tidy event = true)
    (stepped : step lib s event = some t) : t.Received lib (s.record lib past event) := by
  obtain ⟨here, can⟩ := possible_cases can
  cases event with
  | handleRequest req jsonpCallback lastPart body =>
    obtain ⟨-, ⟨⟨there, http⟩, fresh⟩, new⟩ := can
    exact received.handleRequest linked http there fresh new stepped
  | req_bytesWritten id finished =>
    exact received.aside (Aside.req_bytesWritten received.toReceiving can.2 stepped)
  | req_error id disconnected => exact received.req_error linked stepped
  | accept reason headers =>
    have base : s.Aside { s with answered := true, accepted := true } := { Aside.refl s with }
    have polls : ({ s with answered := true, accepted := true } : Session).Polls := linked.polling
    exact received.aside (base.trans (Aside.accept polls stepped))
  | reject code reason headers body =>
    have base : s.Aside { s with answered := true } := { Aside.refl s with }
    have polls : ({ s with answered := true } : Session).Polls := linked.polling
    exact received.aside (base.trans (Aside.reject polls stepped))
  | writeFrame frame =>
    have base : s.Aside { s with given := s.given ++ [frame] } := { Aside.refl s with }
    have polls : ({ s with given := s.given ++ [frame] } : Session).Polls := linked.polling
    exact received.aside (base.trans (Aside.writeFrame polls stepped))
  | readFrame => exact received.readFrame stepped
  | close code reason => exact received.aside (Aside.close linked stepped)
  | arrive frames =>
    cases stepped
    exact received.arrive can.2 fit
  | sock_readyRead =>
    change s.sock_readyRead lib = some t at stepped
    unfold sock_readyRead at stepped
    split at stepped
    · next framed =>
      obtain ⟨⟨u, ready, goes⟩, read, rfl⟩ := map_eq_some_iff.mp stepped
      have got : u.Received lib { past with due := false } :=
        Received.readSock linked received.bytes framed received.asked
          (received.wraps framed) can.2 read
      exact got
    · next other =>
      cases stepped
      have now : s.Received lib { past with due := false } :=
        { received with still := fun framed => absurd framed other }
      exact now.aside (Aside.emit s .readyRead ⟨rfl, rfl⟩)
  | sock_framesWritten count contentBytes =>
    have told : s.Aside { s with sockPending := s.sockPending - count } := { Aside.refl s with }
    exact received.aside (told.trans (Aside.handleWritten stepped))
  | sock_writeBytesChanged =>
    cases stepped
    exact received.aside (Aside.emit s .writeBytesChanged ⟨rfl, rfl⟩)
  | sock_peerClosed code reason =>
    cases stepped
    have told := Aside.emit s .peerClosed ⟨rfl, rfl⟩
    exact received.aside { told with }
  | sock_closed code reason =>
    obtain ⟨u, ended, eq⟩ := bind_eq_some_iff.mp stepped
    cases eq
    have told : s.Aside { s with
      peerCloseCode := code, peerCloseReason := reason, state := .idle } := { Aside.refl s with }
    have polls :
        ({ s with peerCloseCode := code, peerCloseReason := reason, state := .idle } :
          Session).Polls :=
      linked.polling
    exact received.aside
      ((told.trans (Aside.cleanup polls ended)).trans (Aside.emit u .closed ⟨rfl, rfl⟩))
  | sock_error condition =>
    obtain ⟨u, ended, eq⟩ := bind_eq_some_iff.mp stepped
    cases eq
    have told : s.Aside { s with state := .idle, errorCondition := condition } :=
      { Aside.refl s with }
    have polls : ({ s with state := .idle, errorCondition := condition } : Session).Polls :=
      linked.polling
    exact received.aside
      ((told.trans (Aside.cleanup polls ended)).trans (Aside.emit u .error ⟨rfl, rfl⟩))
  | doUpdate =>
    exact received.doUpdate linked fit stepped
  | doClosed =>
    cases stepped
    have told := Aside.emit s .closed ⟨rfl, rfl⟩
    exact received.aside { told with }
  | timeout => exact received.aside (Aside.timeout linked stepped)
  | resume => exact received.aside (Aside.resume linked stepped)
  | destroy =>
    obtain ⟨u, ended, eq⟩ := bind_eq_some_iff.mp stepped
    cases eq
    have over_ := received.aside (Aside.cleanup linked.polling ended)
    rw [cleanup_eq] at ended
    have away := Option.some.inj (Option.ite_none_right_eq_some.mp ended).2
    exact { over_ with
      moves := fun id ri found => by
        rw [← away] at found
        cases found
      still := fun framed due there => by
        rw [← away] at there
        cases there }

theorem start_received {mode : Mode} (carries : mode ≠ .webSocketPassthrough) (lib : Lib) (id : Nat)
    (jsonpCallback : List Byte) : (setup mode id jsonpCallback).startServer.Received lib {} := by
  have none_ : ∀ k ri, (setup mode id jsonpCallback).startServer.item k = some ri →
      ri.type ≠ .send := by
    intro k ri found
    cases mode with
    | http =>
      have eq : (setup .http id jsonpCallback).startServer.item k =
        if k = id then some { jsonpCallback, type := .connect } else none := Hash.get?_insert ..
      rw [eq] at found
      split at found
      · cases found
        exact fun send => by cases send
      · cases found
    | webSocketFramed => cases found
    | webSocketPassthrough => cases found
  have mode_ : (setup mode id jsonpCallback).startServer.mode = mode := by cases mode <;> rfl
  exact {
    bytes := by cases mode <;> rfl
    lone := fun k ri _ _ found send => absurd send (none_ k ri found)
    small := fun k ri found send => absurd send (none_ k ri found)
    done := fun k ri found send => absurd send (none_ k ri found)
    counts := fun k ri found send => absurd send (none_ k ri found)
    carries := by rw [mode_]; exact carries
    asked := fun _ mem => by cases mem
    moves := fun k ri found send => absurd send (none_ k ri found)
    still := fun _ _ _ _ => Or.inr (by cases mode <;> exact ⟨rfl, rfl⟩)
    holds := fun _ =>
      ⟨[], by cases mode <;> rfl,
        fun _ => Or.inr ⟨fun k ri found send => absurd send (none_ k ri found), rfl⟩⟩
    wraps := fun _ =>
      ⟨rfl, [], [], rfl, by cases mode <;> exact .nil, fun _ => by cases mode <;> rfl⟩ }

def receives (lib : Lib) (state : Session × Past) (event : Event) : Option (Session × Past) :=
  (step lib state.1 event).map fun s => (s, state.1.record lib state.2 event)

/-- The strings that the client sends are read in order, each as a text frame, and each
    request that sends is responded to once, when all it had was taken. What is no list of
    strings is refused, and ends a session that is carried by another WebSocket. -/
theorem messages_received (lib : Lib) {mode : Mode} (carries : mode ≠ .webSocketPassthrough)
    (id : Nat) (jsonpCallback : List Byte) (events : List Event)
    (fit : Runs.along (receives lib)
    (fun state event => possible state.1 event && state.1.tidy event)
      ((setup mode id jsonpCallback).startServer, {}) events = true) {last : Session} {past : Past}
    (ran : Runs.run (receives lib) ((setup mode id jsonpCallback).startServer,
    {}) events = some (last, past)) :
    last.inBytes = sizeOf last.inFrames ∧
    (last.mode = .http → ∃ rest, readings last.out ++ last.inFrames ++ rest = past.frames ∧
      (last.manager = true → last.Waiting rest)) ∧
    (last.mode = .webSocketFramed → (∃ (taken rest : List Frame) (parts : List (List (List Byte))),
        past.frames = taken ++ rest ∧ messages past.frames = messages taken ++ messages rest ∧
        (messages taken).map (strings lib) = parts.map some ∧
        readings last.out ++ last.inFrames = parts.flatten.map Frame.ofText ∧
        (last.sock = true → rest = last.inWrappedFrames ++ last.sockFrames)) ∧
      (last.sock = true → past.due = false → last.updating = false →
        last.inFrames ≠ [] ∨ splitMessage last.inWrappedFrames = none ∧ last.sockFrames = [])) ∧
    (∀ k ∈ past.asked,
      (responses last.out).count k = 1 ∧ (∀ ri, last.item k = some ri → ri.sendFrames = []) ∨
      (responses last.out).count k = 0 ∧
      (last.manager = true → ∃ ri, last.item k = some ri ∧ ri.type = .send ∧
        ri.responded = false ∧ ri.sendFrames ≠ [] ∧ (last.updating = false → last.inFrames ≠ []))) ∧
    (∀ req jsonpCallback lastPart body, lastPart = ascii "xhr_send" ∨
    lastPart = ascii "jsonp_send" →
      last.asking lib req lastPart body = none →
        ∃ message, last.handleRequest lib req jsonpCallback lastPart body =
        some (last.background req.id jsonpCallback (.error 400 (ascii "Bad Request") message))) ∧
    (∀ message rest, last.mode = .webSocketFramed → last.sock = true → last.inBytes < BUFFER_SIZE →
      splitMessage (last.inWrappedFrames ++ last.sockFrames) = some (message, rest) →
      message.head?.any Frame.isText = true → strings lib (bytesOf message) = none →
      ∃ t, last.sock_readyRead lib = some t ∧ t.state = .idle ∧ t.sock = false ∧
        t.out.getLast? = some .error) := by
  have keeps : ∀ (state : Session × Past) event next, state.1.Linked ∧
    state.1.Received lib state.2 →
      (possible state.1 event && state.1.tidy event) = true → receives lib state event = some next →
      next.1.Linked ∧ next.1.Received lib next.2 := by
    rintro ⟨s, past⟩ event next ⟨linked, received⟩ both stepped
    obtain ⟨can, fit⟩ := Bool.and_eq_true_iff.mp both
    obtain ⟨t, taken, rfl⟩ := map_eq_some_iff.mp stepped
    refine ⟨step_linked linked can ?_ taken, step_received linked received can fit taken⟩
    rintro rfl fine framed
    have fine : s.errored = false := fine
    have framed : s.mode = .webSocketFramed := framed
    simpa [Session.tidy, fine, framed] using fit
  obtain ⟨linked, received⟩ :=
    Runs.run_kept (fun state => state.1.Linked ∧ state.1.Received lib state.2) keeps
      ⟨start_linked mode id jsonpCallback, start_received carries lib id jsonpCallback⟩ ran fit
  have linked : last.Linked := linked
  have received : last.Received lib past := received
  refine ⟨received.bytes, received.holds, fun framed =>
    ⟨(received.wraps framed).strings, fun there due still =>
    received.still framed due there still⟩, ?_, fun req callback lastPart body sends refused =>
    handleRequest_refused sends refused, fun message rest framed there room next text bad =>
    linked.malformed framed there room next text bad⟩
  intro k mem
  rcases received.asked k mem with ⟨ri, found, send⟩ | ⟨gone, once⟩
  · have count := received.counts k ri found send
    cases responded : ri.responded with
    | true =>
      rw [if_pos responded] at count
      refine Or.inl ⟨count, fun ri' found' => ?_⟩
      cases found.symm.trans found'
      exact received.done k ri found send responded
    | false =>
      rw [responded] at count
      exact Or.inr ⟨count, fun _ => ⟨ri, found, send, responded,
        (linked.sends k ri found send responded).1, received.moves k ri found send responded⟩⟩
  · rcases once with once | ⟨away, never⟩
    · exact Or.inl ⟨once, fun ri found => by cases gone.symm.trans found⟩
    · exact Or.inr ⟨never, fun there => by cases away.symm.trans there⟩

def listLib : Lib where
  fromString := fun data =>
    if data = ascii "[\"a\"]" then .list [some (ascii "a")]
    else if data = ascii "[\"a\",\"b\"]" then .list [some (ascii "a"), some (ascii "b")]
    else .invalid
  fromUtf8 := id
  fromPercentEncoding := id
  queryItemValue := fun _ _ => []

def sentLists : List Event :=
  [.accept [] [], .req_bytesWritten 0 true,
    .handleRequest ⟨1, ascii "POST", []⟩ [] (ascii "xhr_send") (ascii "[\"a\"]"), .readFrame,
    .req_bytesWritten 1 true, .doUpdate,
    .handleRequest ⟨2, ascii "POST", []⟩ [] (ascii "xhr_send") (ascii "[\"a\",\"b\"]"), .readFrame,
      .doUpdate,
    .readFrame]

def wrappedLists : List Event :=
  [.accept [] [], .arrive [⟨.text, ascii "[\"a\"]", false⟩, ⟨.ping, [112], false⟩,
    ⟨.text, ascii "[\"a\",", true⟩],
    .sock_readyRead, .readFrame, .arrive [⟨.continuation, ascii "\"b\"]", false⟩], .sock_readyRead,
      .readFrame, .readFrame]

theorem lists_received :
    (∃ last past, Runs.run (receives listLib) ((setup .http 0 []).startServer, {}) sentLists =
    some (last, past) ∧
      readings last.out = ["a", "a", "b"].map fun text => Frame.ofText (ascii text)) ∧
    ∃ last past, Runs.run (receives listLib) ((setup .webSocketFramed 0 []).startServer, {})
      wrappedLists = some (last, past) ∧
      last.inBytes = 0 ∧ readings last.out = ["a", "a", "b"].map fun text =>
        Frame.ofText (ascii text) := by
  constructor
  · have ends : (Runs.run (receives listLib) ((setup .http 0 []).startServer, {}) sentLists).any
        (fun state =>
        state.1.mode = .http && state.1.inFrames = [] && state.1.manager &&
          state.2.frames = (["a", "a", "b"].map fun text => Frame.ofText (ascii text)) &&
          state.1.requests.values.all fun ri => ri.type ≠ .send || ri.responded) = true := by rfl
    obtain ⟨⟨last, past⟩, ran, ends⟩ := Runs.exists_of_any ends
    simp only [Bool.and_eq_true, decide_eq_true_eq] at ends
    obtain ⟨⟨⟨⟨http, empty⟩, there⟩, frames⟩, answered⟩ := ends
    obtain ⟨-, held, -⟩ := messages_received listLib (by decide) 0 [] sentLists (by rfl) ran
    obtain ⟨rest, eq, waits⟩ := held http
    have none_ : rest = [] := by
      rcases waits there with ⟨id, ri, found, send, open_, -⟩ | ⟨-, rfl⟩
      · have done := List.all_eq_true.mp answered ri
          (List.mem_map.mpr ⟨(id, ri), Hash.mem_iff_get?.mpr found, rfl⟩)
        simp [send, open_] at done
      · rfl
    refine ⟨last, past, ran, ?_⟩
    rw [empty, none_, List.append_nil, List.append_nil] at eq
    rw [eq, frames]
  · have ends : (Runs.run (receives listLib) ((setup .webSocketFramed 0 []).startServer,
        {}) wrappedLists).any (fun state =>
        state.1.inFrames = [] &&
          readings state.1.out = (["a", "a", "b"].map fun text => Frame.ofText (ascii text))) =
            true := by rfl
    obtain ⟨⟨last, past⟩, ran, ends⟩ := Runs.exists_of_any ends
    simp only [Bool.and_eq_true, decide_eq_true_eq] at ends
    obtain ⟨bytes, -⟩ := messages_received listLib (by decide) 0 [] wrappedLists (by rfl) ran
    exact ⟨last, past, ran, by rw [bytes, ends.1]; rfl, ends.2⟩

def pingedList : List Event :=
  [.accept [] [], .arrive [⟨.text, ascii "[\"a", true⟩, ⟨.ping, [112], false⟩,
    ⟨.continuation, ascii "\"]", false⟩], .sock_readyRead]

theorem pingedList_lost :
    Runs.along (step listLib) possible (setup .webSocketFramed 0 []).startServer pingedList = true ∧
    ∃ last past, Runs.run (receives listLib) ((setup .webSocketFramed 0 []).startServer, {})
      pingedList = some (last, past) ∧
      (messages past.frames).map (strings listLib) = [some [ascii "a"]] ∧
      last.state = .idle ∧ last.out.getLast? = some .error ∧ readings last.out = [] ∧
        last.inFrames = [] := by
  refine ⟨by rfl, ?_⟩
  have ends : (Runs.run (receives listLib) ((setup .webSocketFramed 0 []).startServer,
      {}) pingedList).any (fun state =>
      (messages state.2.frames).map (strings listLib) = [some [ascii "a"]] && state.1.state =
        .idle &&
        state.1.out.getLast? = some .error && readings state.1.out = [] && state.1.inFrames = []) =
          true := by rfl
  obtain ⟨⟨last, past⟩, ran, ends⟩ := Runs.exists_of_any ends
  simp only [Bool.and_eq_true, decide_eq_true_eq] at ends
  obtain ⟨⟨⟨⟨known, idle⟩, error⟩, unread⟩, empty⟩ := ends
  exact ⟨last, past, ran, known, idle, error, unread, empty⟩

end PushpinSockJs
