import Pushpin.Proxy.RequestLimits

namespace PushpinWebSocketOverHttp
open PushpinVariant (Bytes)
open PushpinHttpHeaders (ascii)

/-- How much is left to remove, and the frames. An assertion that fails gives `none`. -/
@[grind =]
def removeFrames (left : Int) (frames : List Frame) : Option (Int × List Frame) :=
  match frames with
  | [] => some (left, [])
  | f :: rest =>
    if f.type = .continuation then some (left, f :: rest)
    else
      let size := min left f.data.length
      let left := left - size
      if size < f.data.length then
        if left = 0 then some (left,
          { f with data := if 0 < size then f.data.drop size.toNat else f.data } :: rest)
        else none
      -- only if the type can be carried over
      else if f.more && (f :: rest).length < 2 then some (left, f :: rest)
      else if f.more then
        match rest with
        | [] => none
        | g :: rest => removeFrames left ({ g with type := f.type } :: rest)
      else removeFrames left rest
termination_by frames.length

def removeContentFromFrames (frames : List Frame) (count : Int) : Option (Int × List Frame) :=
  (removeFrames count frames).map fun (left, frames) => (count - left, frames)

@[grind =]
def wellFormed (inside : Bool) : List Frame → Bool
  | [] => true
  | f :: rest => (decide (f.type = .continuation) == inside) && wellFormed f.more rest

structure Part where
  type : FrameType
  content : Bytes
  finished : Bool
deriving DecidableEq, Repr

@[grind =]
def parts : List Frame → List Part
  | [] => []
  | f :: rest =>
    if f.more then
      match parts rest with
      | [] => [⟨f.type, f.data, false⟩]
      | p :: ps => ⟨f.type, f.data ++ p.content, p.finished⟩ :: ps
    else ⟨f.type, f.data, true⟩ :: parts rest

def Part.event (p : Part) : Event :=
  ⟨typeName p.type, if p.content = [] then none else some p.content⟩

@[grind =]
def cut : Nat → List Part → List Part
  | _, [] => []
  | k, p :: ps => { p with content := p.content.drop k } :: cut (k - p.content.length) ps

def finishedSize (ps : List Part) : Nat :=
  (ps.map fun p => if p.finished then p.content.length else 0).sum

theorem cut_zero (ps : List Part) : cut 0 ps = ps := by
  induction ps with
  | nil => rfl
  | cons p ps ih =>
    rw [cut, Nat.zero_sub, ih]
    rfl

theorem cut_content (k : Nat) (ps : List Part) :
    (cut k ps).flatMap Part.content = (ps.flatMap Part.content).drop k := by
  induction ps generalizing k with
  | nil => simp [cut]
  | cons p ps ih =>
    rw [cut, List.flatMap_cons, List.flatMap_cons, ih, List.drop_append]

theorem parts_content (frames : List Frame) :
    (parts frames).flatMap Part.content = content frames := by
  induction frames with
  | nil => rfl
  | cons f rest ih =>
    have first : content (f :: rest) = f.data ++ content rest := List.flatMap_cons
    rw [parts, first, ← ih]
    split
    · split
      · rename_i none_
        rw [none_]
        rfl
      · rename_i p ps some_
        rw [some_, List.flatMap_cons, List.flatMap_cons, List.append_assoc]
    · rw [List.flatMap_cons]

theorem parts_cons (g : Frame) (rest : List Frame) :
    ∃ content finished ps, ∀ type, parts ({ g with type := type } :: rest) =
      ⟨type, content, finished⟩ :: ps := by
  cases more : g.more with
  | false => exact ⟨g.data, true, parts rest, fun type => by simp [parts]⟩
  | true =>
    cases split : parts rest with
    | nil => exact ⟨g.data, false, [], fun type => by simp [parts, split]⟩
    | cons p ps => exact ⟨g.data ++ p.content, p.finished, ps, fun type => by simp [parts, split]⟩

structure Removed (k : Nat) (frames left : List Frame) : Prop where
  well : wellFormed false left = true
  messages : ∃ emptied, cut k (parts frames) = emptied ++ parts left ∧
    ∀ p ∈ emptied, p.content = [] ∧ p.finished = true

theorem Removed.content {k : Nat} {frames left : List Frame} (removed : Removed k frames left) :
    content left = (content frames).drop k := by
  obtain ⟨emptied, same, empty⟩ := removed.messages
  have nothing : emptied.flatMap Part.content = [] :=
    List.flatMap_eq_nil_iff.mpr fun p member => (empty p member).1
  rw [← parts_content, ← parts_content, ← cut_content, same, List.flatMap_append, nothing,
    List.nil_append]

theorem removed_inside {k : Nat} {f : Frame} {rest : List Frame}
    (well : wellFormed false (f :: rest) = true) (inside : k < f.data.length) :
    Removed k (f :: rest) ({ f with data := f.data.drop k } :: rest) := by
  refine ⟨well, [], ?_, by simp⟩
  have whole : ∀ data : Bytes, (f.data ++ data).drop k = f.data.drop k ++ data := fun data =>
    List.drop_append_of_le_length (le_of_lt inside)
  rw [List.nil_append, parts, parts]
  split
  · split
    · rfl
    · rename_i p ps split_
      have none_ : k - (f.data ++ p.content).length = 0 := by
        rw [List.length_append]
        omega
      rw [cut, none_, cut_zero, whole]
  · rw [cut, Nat.sub_eq_zero_of_le (le_of_lt inside), cut_zero]

theorem removed_last {k : Nat} {f : Frame} {rest left : List Frame} (last : f.more = false)
    (whole : f.data.length ≤ k) (later : Removed (k - f.data.length) rest left) :
    Removed k (f :: rest) left := by
  obtain ⟨well, emptied, same, empty⟩ := later
  refine ⟨well, ⟨f.type, [], true⟩ :: emptied, ?_, ?_⟩
  · rw [parts, if_neg (by simp [last]), cut, same, List.drop_eq_nil_of_le whole]
    rfl
  · intro p member
    rcases List.mem_cons.mp member with rfl | old
    · exact ⟨rfl, rfl⟩
    · exact empty p old

theorem removed_more {k : Nat} {f g : Frame} {rest left : List Frame} (more : f.more = true)
    (whole : f.data.length ≤ k) (later : Removed (k - f.data.length)
    ({ g with type := f.type } :: rest) left) : Removed k (f :: g :: rest) left := by
  obtain ⟨well, emptied, same, empty⟩ := later
  obtain ⟨content, finished, ps, split⟩ := parts_cons g rest
  refine ⟨well, emptied, ?_, empty⟩
  have joined : parts (f :: g :: rest) = ⟨f.type, f.data ++ content, finished⟩ :: ps := by
    rw [parts, if_pos more, show parts (g :: rest) = _ from split g.type]
  rw [← same, joined, split, cut, cut, List.drop_append, List.drop_eq_nil_of_le whole,
    List.length_append, Nat.sub_add_eq]
  rfl

theorem removeFrames_spec (n : Nat) {k : Nat} {frames : List Frame} (bound : frames.length ≤ n)
    (well : wellFormed false frames = true) (enough : k ≤ finishedSize (parts frames)) :
    ∃ left, removeFrames k frames = some (0, left) ∧ Removed k frames left := by
  induction n generalizing k frames with
  | zero =>
    have empty : frames = [] := List.length_eq_zero_iff.mp (Nat.le_zero.mp bound)
    subst empty
    have none_ : k = 0 := Nat.le_zero.mp enough
    subst none_
    exact ⟨[], by rw [removeFrames]; rfl, rfl, [], rfl, by simp⟩
  | succ n ih =>
    cases frames with
    | nil =>
      have none_ : k = 0 := Nat.le_zero.mp enough
      subst none_
      exact ⟨[], by rw [removeFrames]; rfl, rfl, [], rfl, by simp⟩
    | cons f rest =>
      have typed : f.type ≠ .continuation := by
        simp only [wellFormed, Bool.and_eq_true, beq_iff_eq, decide_eq_false_iff_not] at well
        exact well.1
      have next : wellFormed f.more rest = true := by
        rw [wellFormed, Bool.and_eq_true] at well
        exact well.2
      rw [List.length_cons, Nat.succ_le_succ_iff] at bound
      rw [removeFrames, if_neg typed]
      rcases Nat.lt_or_ge k f.data.length with inside | whole
      · have size : min (k : Int) f.data.length = k := by omega
        refine ⟨_, ?_, removed_inside well inside⟩
        dsimp only
        rw [size, if_pos (by omega), if_pos (by omega), Int.toNat_natCast, sub_self]
        split
        · rfl
        · have none_ : k = 0 := by omega
          rw [none_, List.drop_zero]
      · have size : min (k : Int) f.data.length = f.data.length := by omega
        have left : (k : Int) - f.data.length = (k - f.data.length : Nat) := by omega
        dsimp only
        rw [size, if_neg (by omega), left]
        cases more : f.more with
        | false =>
          have sum : finishedSize (parts (f :: rest)) = f.data.length + finishedSize
              (parts rest) := by
            rw [parts, if_neg (by simp [more])]
            rfl
          have later : k - f.data.length ≤ finishedSize (parts rest) := by omega
          rw [more] at next
          obtain ⟨remaining, ran, removed⟩ := ih bound next later
          exact ⟨remaining, ran, removed_last more whole removed⟩
        | true =>
          cases rest with
          | nil =>
            have sum : finishedSize (parts [f]) = 0 := by
              rw [parts, if_pos more]
              rfl
            have none_ : k = 0 := by omega
            subst none_
            rw [Nat.zero_sub]
            exact ⟨[f], rfl, well, [], cut_zero _, by simp⟩
          | cons g rest =>
            obtain ⟨content, finished, ps, split⟩ := parts_cons g rest
            have joined : parts (f :: g :: rest) = ⟨f.type, f.data ++ content, finished⟩ :: ps := by
              rw [parts, if_pos more, show parts (g :: rest) = _ from split g.type]
            have later :
                k - f.data.length ≤ finishedSize (parts ({ g with type := f.type } :: rest)) := by
              rw [split]
              rw [joined] at enough
              simp only [finishedSize, List.map_cons, List.sum_cons, List.length_append] at enough ⊢
              cases finished with
              | true =>
                rw [if_pos rfl] at enough ⊢
                omega
              | false =>
                rw [if_neg Bool.false_ne_true] at enough ⊢
                omega
            have carried : wellFormed false ({ g with type := f.type } :: rest) = true := by
              simp only [wellFormed, Bool.and_eq_true, beq_iff_eq] at next ⊢
              exact ⟨decide_eq_false typed, next.2⟩
            obtain ⟨remaining, ran, removed⟩ :=
              @ih _ ({ g with type := f.type } :: rest) bound carried later
            have carries : ¬ (true && decide ((f :: g :: rest).length < 2)) = true := by
              rw [Bool.true_and, decide_eq_true_eq, List.length_cons, List.length_cons]
              omega
            refine ⟨remaining, ?_, removed_more more whole removed⟩
            rw [if_neg carries, if_pos rfl]
            exact ran

def toPart (message : List Frame) : Part :=
  ⟨(message.head?.map Frame.type).getD .text, content message, true⟩

theorem parts_message {frames message : List Frame} (member : message ∈ messages frames)
    (later : List Frame) : parts (message ++ later) = toPart message :: parts later := by
  induction frames generalizing message with
  | nil => cases member
  | cons f frames ih =>
    rw [messages] at member
    split at member
    · rename_i more
      split at member
      · cases member
      · rename_i first rest split_
        rcases List.mem_cons.mp member with rfl | old
        · have inner := ih (by rw [split_]; exact List.mem_cons_self)
          rw [List.cons_append, parts, if_pos more, inner]
          rfl
        · exact ih (by rw [split_]; exact List.mem_cons_of_mem first old)
    · rename_i last
      rcases List.mem_cons.mp member with rfl | old
      · rw [List.singleton_append, parts, if_neg last]
        simp [toPart, content]
      · exact ih old

theorem parts_flatten {taken : List (List Frame)} {frames : List Frame}
    (members : ∀ m ∈ taken, m ∈ messages frames) (later : List Frame) :
    parts (taken.flatten ++ later) = taken.map toPart ++ parts later := by
  induction taken with
  | nil => rfl
  | cons m taken ih =>
    rw [List.flatten_cons, List.append_assoc, parts_message (members m List.mem_cons_self),
      ih fun m' member => members m' (List.mem_cons_of_mem m member)]
    rfl

theorem finishedSize_append (front rest : List Part) :
    finishedSize (front ++ rest) = finishedSize front + finishedSize rest := by
  rw [finishedSize, List.map_append, List.sum_append]
  rfl

theorem finishedSize_toPart (taken : List (List Frame)) :
    finishedSize (taken.map toPart) = (content taken.flatten).length := by
  induction taken with
  | nil => rfl
  | cons m taken ih =>
    have first : finishedSize ((m :: taken).map toPart) = (content m).length + finishedSize
      (taken.map toPart) := rfl
    rw [first, ih, List.flatten_cons, content, content, content, List.flatMap_append,
      List.length_append]

theorem messages_flatten (frames : List Frame) :
    ∃ unfinished, frames = (messages frames).flatten ++ unfinished := by
  induction frames with
  | nil => exact ⟨[], rfl⟩
  | cons f frames ih =>
    obtain ⟨unfinished, same⟩ := ih
    rw [messages]
    split
    · split
      · exact ⟨f :: frames, rfl⟩
      · rename_i message rest split_
        rw [split_] at same
        exact ⟨unfinished, by simpa using same⟩
    · exact ⟨unfinished, by simpa using same⟩

theorem messages_typed {inside : Bool} {frames : List Frame}
    (well : wellFormed inside frames = true) : (∀ m ∈ (messages frames).tail, wellTyped m = true) ∧
    ∀ m ∈ (messages frames).head?, if inside then ∀ f ∈ m, f.type = .continuation
      else wellTyped m = true := by
  induction frames generalizing inside with
  | nil => simp [messages]
  | cons f frames ih =>
    simp only [wellFormed, Bool.and_eq_true, beq_iff_eq] at well
    obtain ⟨typed, next⟩ := well
    obtain ⟨tail, head⟩ := ih next
    rw [messages]
    have one : ∀ message : List Frame, (∀ g ∈ message, g.type = .continuation) →
        if inside then ∀ g ∈ f :: message, g.type = .continuation else wellTyped (f :: message) =
          true := by
      intro message continued
      split
      · rename_i isInside
        intro g member
        rcases List.mem_cons.mp member with rfl | old
        · exact of_decide_eq_true (typed.trans isInside)
        · exact continued g old
      · rename_i notInside
        rw [Bool.not_eq_true] at notInside
        rw [wellTyped, Bool.and_eq_true, List.all_eq_true]
        exact ⟨decide_eq_true (of_decide_eq_false (typed.trans notInside)),
          fun g member => decide_eq_true (continued g member)⟩
    split
    · rename_i more
      rw [more] at head
      split
      · simp
      · rename_i first rest split_
        rw [split_] at tail head
        refine ⟨tail, fun m member => ?_⟩
        cases member
        exact one first (head first rfl)
    · rename_i last
      rw [Bool.not_eq_true] at last
      rw [last] at head
      refine ⟨fun m member => ?_, fun m member => ?_⟩
      · cases split_ : messages frames with
        | nil =>
          rw [split_] at member
          cases member
        | cons first rest =>
          rw [split_] at member tail head
          rcases List.mem_cons.mp member with rfl | old
          · exact head m rfl
          · exact tail m old
      · cases member
        exact one [] (by simp)

theorem eventsFrom_typed (eventsMax contentMax : Int) {rest : List (List Frame)}
    (typed : ∀ m ∈ rest, wellTyped m = true) (out : List Event) (pos contentSize : Nat) :
    ∃ n, eventsFrom eventsMax contentMax rest out pos contentSize =
      some (out ++ (rest.take n).map toEvent, pos + (rest.take n).flatten.length,
        contentSize + (content (rest.take n).flatten).length) := by
  induction rest generalizing out pos contentSize with
  | nil => exact ⟨0, by simp [eventsFrom, content]⟩
  | cons message rest ih =>
    rw [eventsFrom]
    split
    · obtain ⟨n, ran⟩ := ih (fun m member => typed m (List.mem_cons_of_mem message member))
        (out ++ [toEvent message]) (pos + message.length) (contentSize + (content message).length)
      rw [if_pos (typed message List.mem_cons_self), ran]
      refine ⟨n + 1, ?_⟩
      simp [content, Nat.add_assoc]
    · exact ⟨0, by simp [content]⟩

/-- What the events of a request stand for, and what any part of their content leaves. -/
structure Agrees (frames : List Frame) (events : List Event)
    (framesRepresented contentRepresented : Nat) : Prop where
  messages : events = (parts (frames.take framesRepresented)).map Part.event
  finished : ∀ p ∈ parts (frames.take framesRepresented), p.finished = true
  size : contentRepresented = (content (frames.take framesRepresented)).length
  removal : ∀ k ≤ contentRepresented, ∃ left, removeContentFromFrames frames k = some ((k : Int),
    left) ∧ Removed k frames left ∧ content left = (content frames).drop k

/-- The events of a request, for the messages that the limits allow, and any part of
    their content removed again. -/
theorem frames_sent_and_removed {frames : List Frame} (well : wellFormed false frames = true)
    (eventsMax contentMax : Int) :
    ∃ events framesRepresented contentRepresented,
      framesToEvents frames eventsMax contentMax = some (events, framesRepresented,
        contentRepresented) ∧
      Agrees frames events framesRepresented contentRepresented ∧
      Budgets.Taken eventsMax contentMax ((messages frames).map size) events.length ∧
      framesRepresented = ((messages frames).take events.length).flatten.length := by
  obtain ⟨tail, head⟩ := messages_typed well
  have typed : ∀ m ∈ messages frames, wellTyped m = true := by
    cases split : messages frames with
    | nil => simp
    | cons first rest =>
      rw [split] at tail head
      intro m member
      rcases List.mem_cons.mp member with rfl | old
      · exact head m rfl
      · exact tail m old
  obtain ⟨n, ran⟩ := eventsFrom_typed eventsMax contentMax typed [] 0 0
  obtain ⟨unfinished, whole⟩ := messages_flatten frames
  have members : ∀ m ∈ (messages frames).take n, m ∈ messages frames :=
    fun m member => List.mem_of_mem_take member
  have cut_ : frames = ((messages frames).take n).flatten ++
      (((messages frames).drop n).flatten ++ unfinished) := by
    rw [← List.append_assoc, ← List.flatten_append, List.take_append_drop]
    exact whole
  have front : frames.take ((messages frames).take n).flatten.length =
      ((messages frames).take n).flatten :=
    (congrArg (List.take _) cut_).trans List.take_left
  have split : parts ((messages frames).take n).flatten =
      ((messages frames).take n).map toPart := by
    have flat := parts_flatten members []
    simpa [parts] using flat
  have finished : ∀ p ∈ ((messages frames).take n).map toPart, p.finished = true := by
    intro p member
    obtain ⟨m, -, rfl⟩ := List.mem_map.mp member
    rfl
  have allowed : Budgets.Taken eventsMax contentMax ((messages frames).map size)
      (((messages frames).take n).map toEvent).length ∧
      (messages frames).take (((messages frames).take n).map toEvent).length =
        (messages frames).take n := by
    obtain ⟨m, taken, same, -⟩ := framesToEvents_spec ran
    have there := taken.there
    rw [List.length_map] at there
    rw [List.nil_append] at same
    rw [same, List.length_map, List.length_take, Nat.min_eq_left there]
    refine ⟨taken, ?_⟩
    have counts := congrArg List.length same
    rw [List.length_map, List.length_map, List.length_take, List.length_take,
      Nat.min_eq_left there] at counts
    rw [← counts, ← List.take_eq_take_min]
  rw [List.nil_append] at ran
  refine ⟨_, _, _, ran, ⟨?_, ?_, ?_, ?_⟩, allowed.1, by rw [allowed.2, Nat.zero_add]⟩
  · rw [Nat.zero_add, front, split, List.map_map]
    rfl
  · rw [Nat.zero_add, front, split]
    exact finished
  · rw [Nat.zero_add, Nat.zero_add, front]
  · intro k within
    rw [Nat.zero_add] at within
    have enough : k ≤ finishedSize (parts frames) := by
      have sizes := congrArg (fun frames => finishedSize (parts frames)) cut_
      rw [parts_flatten members, finishedSize_append, finishedSize_toPart] at sizes
      omega
    obtain ⟨left, removes, removed⟩ := removeFrames_spec frames.length le_rfl well enough
    refine ⟨left, ?_, removed, removed.content⟩
    rw [removeContentFromFrames, removes]
    simp

def sampleFrames : List Frame :=
  [⟨.text, [104, 101], true⟩, ⟨.continuation, [108], false⟩, ⟨.ping, [], false⟩,
    ⟨.binary, [1], true⟩]

theorem frames_sent_and_removed_example :
    ∃ events framesRepresented contentRepresented,
      framesToEvents sampleFrames 1 0 = some (events, framesRepresented, contentRepresented) ∧
      Agrees sampleFrames events framesRepresented contentRepresented ∧
      events = [⟨ascii "TEXT", some [104, 101, 108]⟩] ∧ framesRepresented = 2 ∧
        contentRepresented = 3 := by
  obtain ⟨events, frames, size, ran, agrees, -⟩ :=
    @frames_sent_and_removed sampleFrames (by decide) 1 0
  have result : framesToEvents sampleFrames 1 0 = some ([⟨ascii "TEXT", some [104, 101, 108]⟩], 2,
    3) := by decide +kernel
  rw [result] at ran
  cases ran
  exact ⟨_, _, _, result, agrees, rfl, rfl, rfl⟩

end PushpinWebSocketOverHttp
