import Pushpin.Core.TnetstringWriter

namespace PushpinTnetstring
open PushpinRingBuffer Slices Text

inductive Tree where
  | null
  | bool (b : Bool)
  | int (x : Isize)
  | string (s : List Byte)
  | array (items : List Tree)
  | map (entries : List (List Byte × Tree))

def framed (payload : List Byte) (typeByte : Byte) : List Byte :=
  Decimal.text payload.length ++ 58 :: (payload ++ [typeByte])

mutual
def Tree.ops : Tree → List Op
  | .null => [.null]
  | .bool b => [.bool b]
  | .int x => [.int x]
  | .string s => [.string s]
  | .array items => .startArray :: (itemsOps items ++ [.endArray])
  | .map entries => .startMap :: (entriesOps entries ++ [.endMap])
def itemsOps : List Tree → List Op
  | [] => []
  | t :: items => t.ops ++ itemsOps items
def entriesOps : List (List Byte × Tree) → List Op
  | [] => []
  | (key, t) :: entries => .string key :: (t.ops ++ entriesOps entries)
end

mutual
def Tree.encode : Tree → List Byte
  | .null => framed [] 126
  | .bool b => framed (boolBytes b) 33
  | .int x => framed (intText x.val) 35
  | .string s => framed s 44
  | .array items => framed (itemsEncode items) 93
  | .map entries => framed (entriesEncode entries) 125
def itemsEncode : List Tree → List Byte
  | [] => []
  | t :: items => t.encode ++ itemsEncode items
def entriesEncode : List (List Byte × Tree) → List Byte
  | [] => []
  | (key, t) :: entries => framed key 44 ++ (t.encode ++ entriesEncode entries)
end

mutual
def Tree.hasMin : Tree → Bool
  | .null => false
  | .bool _ => false
  | .int x => decide (x.val = -(isizeEnd : Int))
  | .string _ => false
  | .array items => itemsHaveMin items
  | .map entries => entriesHaveMin entries
def itemsHaveMin : List Tree → Bool
  | [] => false
  | t :: items => t.hasMin || itemsHaveMin items
def entriesHaveMin : List (List Byte × Tree) → Bool
  | [] => false
  | (_, t) :: entries => t.hasMin || entriesHaveMin entries
end

mutual
def Tree.textKeys : Tree → Bool
  | .null => true
  | .bool _ => true
  | .int _ => true
  | .string _ => true
  | .array items => itemsTextKeys items
  | .map entries => entriesTextKeys entries
def itemsTextKeys : List Tree → Bool
  | [] => true
  | t :: items => t.textKeys && itemsTextKeys items
def entriesTextKeys : List (List Byte × Tree) → Bool
  | [] => true
  | (key, t) :: entries => isUtf8 key && (t.textKeys && entriesTextKeys entries)
end

def addCost (checks : Bool) (total len : Nat) : Option Nat := do
  addUsize checks total (← addUsize checks (← addUsize checks (usizeLen len) len) 2)

mutual
def Tree.lens (checks : Bool) : Tree → Option (List Nat)
  | .null => some [0]
  | .bool b => some [boolLen b]
  | .int x => (isizeLen checks x).map fun len => [len]
  | .string s => some [s.length]
  | .array items => (itemsLens checks items 0).map fun found => found.1 :: (found.2 ++ [0])
  | .map entries => (entriesLens checks entries 0).map fun found => found.1 :: (found.2 ++ [0])
def itemsLens (checks : Bool) : List Tree → Nat → Option (Nat × List Nat)
  | [], total => some (total, [])
  | t :: items, total =>
    (t.lens checks).bind fun lens =>
    (addCost checks total (lens.headD 0)).bind fun total =>
    (itemsLens checks items total).map fun found => (found.1, lens ++ found.2)
def entriesLens (checks : Bool) : List (List Byte × Tree) → Nat → Option (Nat × List Nat)
  | [], total => some (total, [])
  | (key, t) :: entries, total =>
    (addCost checks total key.length).bind fun total =>
    (t.lens checks).bind fun lens =>
    (addCost checks total (lens.headD 0)).bind fun total =>
    (entriesLens checks entries total).map fun found => (found.1, key.length :: (lens ++ found.2))
end

mutual
theorem Tree.lens_length {checks : Bool} (t : Tree) {lens : List Nat}
    (sized : t.lens checks = some lens) : lens.length = t.ops.length := by
  cases t with
  | null | bool b | string s =>
    simp only [Tree.lens] at sized
    cases sized
    rfl
  | int x =>
    simp only [Tree.lens, Option.map_eq_some_iff] at sized
    obtain ⟨len, _, rfl⟩ := sized
    rfl
  | array items =>
    simp only [Tree.lens, Option.map_eq_some_iff] at sized
    obtain ⟨⟨total, lens⟩, inner, rfl⟩ := sized
    simp only [Tree.ops, List.length_cons, List.length_append, itemsLens_length items inner,
      List.length_nil]
  | map entries =>
    simp only [Tree.lens, Option.map_eq_some_iff] at sized
    obtain ⟨⟨total, lens⟩, inner, rfl⟩ := sized
    simp only [Tree.ops, List.length_cons, List.length_append, entriesLens_length entries inner,
      List.length_nil]
theorem itemsLens_length {checks : Bool} (items : List Tree) {before total : Nat} {lens : List Nat}
    (sized : itemsLens checks items before = some (total, lens)) :
    lens.length = (itemsOps items).length := by
  cases items with
  | nil =>
    simp only [itemsLens] at sized
    cases sized
    rfl
  | cons t items =>
    simp only [itemsLens, Option.bind_eq_some_iff, Option.map_eq_some_iff] at sized
    obtain ⟨first, found, cost, _, ⟨_, more⟩, rest, same⟩ := sized
    cases same
    simp only [itemsOps, List.length_append, t.lens_length found, itemsLens_length items rest]
theorem entriesLens_length {checks : Bool} (entries : List (List Byte × Tree)) {before total : Nat}
    {lens : List Nat} (sized : entriesLens checks entries before = some (total, lens)) :
    lens.length = (entriesOps entries).length := by
  cases entries with
  | nil =>
    simp only [entriesLens] at sized
    cases sized
    rfl
  | cons entry entries =>
    obtain ⟨key, t⟩ := entry
    simp only [entriesLens, Option.bind_eq_some_iff, Option.map_eq_some_iff] at sized
    obtain ⟨_, _, first, found, cost, _, ⟨_, more⟩, rest, same⟩ := sized
    cases same
    simp only [entriesOps, List.length_cons, List.length_append, t.lens_length found,
      entriesLens_length entries rest]
end

theorem Tree.ops_cons (t : Tree) : ∃ op ops, t.ops = op :: ops ∧ op ≠ .endArray ∧ op ≠ .endMap := by
  cases t <;> exact ⟨_, _, by rw [Tree.ops], by simp, by simp⟩

theorem Tree.ops_pos (t : Tree) : 0 < t.ops.length := by
  obtain ⟨op, ops, eq, _⟩ := t.ops_cons
  rw [eq]
  exact Nat.succ_pos _

theorem calcItems_item {checks : Bool} {fuel : Nat} {closing other : Op} (t : Tree)
    (after : List Op) (before : Nat) (ends : closing = .endArray ∧ other = .endMap ∨
    closing = .endMap ∧ other = .endArray)
    (known : calcLen checks fuel (t.ops ++ after) = t.lens checks) :
    calcItems checks (fuel + 1) closing other (t.ops ++ after) before =
      (t.lens checks).bind fun lens =>
      (addCost checks before (lens.headD 0)).bind fun total =>
      (calcItems checks fuel closing other after total).map fun found =>
      (found.1, lens ++ found.2) := by
  obtain ⟨op, ops, shape, no_array, no_map⟩ := t.ops_cons
  have not_closing : op ≠ closing := by rcases ends with ⟨rfl, _⟩ | ⟨rfl, _⟩ <;> assumption
  have not_other : op ≠ other := by rcases ends with ⟨_, rfl⟩ | ⟨_, rfl⟩ <;> assumption
  have unfolded : calcItems checks (fuel + 1) closing other (t.ops ++ after) before =
      (calcLen checks fuel (t.ops ++ after)).bind fun lens =>
      (addCost checks before (lens.headD 0)).bind fun total =>
      (calcItems checks fuel closing other ((t.ops ++ after).drop lens.length) total).map
        fun found =>
        (found.1, lens ++ found.2) := by
    rw [shape, List.cons_append, calcItems, if_neg not_closing, if_neg not_other]
    simp only [addCost, Option.bind_eq_bind, Option.bind_assoc, Option.map_eq_bind]
    rfl
  rw [unfolded, known]
  cases sized : t.lens checks with
  | none => rfl
  | some lens => rw [Option.bind_some, Option.bind_some, t.lens_length sized, List.drop_left]

mutual
/-- The pass over the operations finds the lengths of the tree, and it needs
    no more depth than there are operations. -/
theorem calcLen_tree (checks : Bool) {fuel : Nat} (t : Tree) (after : List Op)
    (enough : 2 * t.ops.length ≤ fuel + 1) :
    calcLen checks (fuel + 1) (t.ops ++ after) = t.lens checks := by
  cases t with
  | null | bool b | string s | int x => rfl
  | array items =>
    simp only [Tree.ops, List.length_cons, List.length_append, List.length_nil] at enough
    obtain ⟨fuel, rfl⟩ := Nat.exists_eq_add_of_le' (show 1 ≤ fuel by omega)
    have inner := calcItems_items checks items 0 after .endArray .endMap (by simp)
      (show 2 * (itemsOps items).length ≤ fuel by omega)
    simp only [Tree.ops, List.cons_append, List.append_assoc, List.nil_append, calcLen, inner,
      Tree.lens, Option.map_eq_bind, Option.bind_eq_bind]
    rfl
  | map entries =>
    simp only [Tree.ops, List.length_cons, List.length_append, List.length_nil] at enough
    obtain ⟨fuel, rfl⟩ := Nat.exists_eq_add_of_le' (show 1 ≤ fuel by omega)
    have inner := calcItems_entries checks entries 0 after .endMap .endArray (by simp)
      (show 2 * (entriesOps entries).length ≤ fuel by omega)
    simp only [Tree.ops, List.cons_append, List.append_assoc, List.nil_append, calcLen, inner,
      Tree.lens, Option.map_eq_bind, Option.bind_eq_bind]
    rfl
theorem calcItems_items (checks : Bool) {fuel : Nat} (items : List Tree) (before : Nat)
    (after : List Op) (closing other : Op) (ends : closing = .endArray ∧ other = .endMap ∨
    closing = .endMap ∧ other = .endArray)
    (enough : 2 * (itemsOps items).length ≤ fuel) :
    calcItems checks (fuel + 1) closing other (itemsOps items ++ closing :: after) before =
      itemsLens checks items before := by
  cases items with
  | nil => simp [itemsOps, calcItems, itemsLens]
  | cons t items =>
    have pos := t.ops_pos
    simp only [itemsOps, List.length_append] at enough
    obtain ⟨fuel, rfl⟩ := Nat.exists_eq_add_of_le' (show 1 ≤ fuel by omega)
    simp only [itemsOps, List.append_assoc]
    rw [calcItems_item t _ before ends (calcLen_tree checks t _ (by omega)), itemsLens]
    simp only [calcItems_items checks items _ after closing other ends
      (show 2 * (itemsOps items).length ≤ fuel by omega)]
theorem calcItems_entries (checks : Bool) {fuel : Nat} (entries : List (List Byte × Tree))
    (before : Nat) (after : List Op) (closing other : Op)
    (ends : closing = .endArray ∧ other = .endMap ∨ closing = .endMap ∧ other = .endArray)
    (enough : 2 * (entriesOps entries).length ≤ fuel) :
    calcItems checks (fuel + 1) closing other (entriesOps entries ++ closing :: after) before =
      entriesLens checks entries before := by
  cases entries with
  | nil => simp [entriesOps, calcItems, entriesLens]
  | cons entry entries =>
    obtain ⟨key, t⟩ := entry
    have pos := t.ops_pos
    simp only [entriesOps, List.length_cons, List.length_append] at enough
    obtain ⟨fuel, rfl⟩ := Nat.exists_eq_add_of_le' (show 2 ≤ fuel by omega)
    have key_ops : Op.string key :: (t.ops ++ entriesOps entries) ++ closing :: after =
        (Tree.string key).ops ++ (t.ops ++ (entriesOps entries ++ closing :: after)) := by
      simp only [Tree.ops, List.cons_append, List.nil_append, List.append_assoc]
    rw [entriesOps, key_ops, calcItems_item (Tree.string key) _ before ends (by rfl), entriesLens]
    simp only [calcItems_item t _ _ ends
      (calcLen_tree checks t _ (show 2 * t.ops.length ≤ fuel + 1 by omega)),
        calcItems_entries checks entries _ after closing other ends
          (show 2 * (entriesOps entries).length ≤ fuel by omega),
      Tree.lens, List.headD_cons, Option.map_eq_bind, Option.bind_assoc, Option.bind_some,
        Function.comp_def,
      List.cons_append, List.nil_append]
end

theorem lenFrom_text (fuel : Nat) {x : Nat} (enough : x ≤ fuel) (len : Nat) :
    lenFrom fuel x len + 1 = len + (Decimal.text x).length := by
  induction fuel generalizing x len with
  | zero =>
    obtain rfl : x = 0 := by omega
    rfl
  | succ fuel ih =>
    unfold lenFrom
    split
    · rename_i large
      rw [ih (by omega), Decimal.text_of_large large, List.length_append, List.length_singleton]
      omega
    · rename_i small
      rw [Decimal.text_of_small (by omega), List.length_singleton]

theorem usizeLen_text (n : Nat) : usizeLen n = (Decimal.text n).length := by
  have count := lenFrom_text n (Nat.le_refl n) 1
  unfold usizeLen
  omega

theorem isizeLen_text {checks : Bool} {x : Isize} (fine : x.val ≠ -(isizeEnd : Int)) :
    isizeLen checks x = some (intText x.val).length := by
  have count := lenFrom_text x.val.natAbs (Nat.le_refl _)
  rw [isizeLen, if_neg fine, intText]
  split
  · have := count 2
    rw [List.length_cons, Option.some.injEq]
    omega
  · have := count 1
    rw [Option.some.injEq]
    omega

def Op.bytes (op : Op) (len : Nat) : List Byte := ((op.pieces len).getD []).flatten

def output : List Op → List Nat → List Byte
  | op :: ops, len :: lens => op.bytes len ++ output ops lens
  | _, _ => []

theorem output_append {ops : List Op} {lens : List Nat} (same : lens.length = ops.length)
    (ops' : List Op) (lens' : List Nat) :
    output (ops ++ ops') (lens ++ lens') = output ops lens ++ output ops' lens' := by
  induction ops generalizing lens with
  | nil =>
    obtain rfl : lens = [] := List.length_eq_zero_iff.mp same
    rfl
  | cons op ops ih =>
    cases lens with
    | nil => cases same
    | cons len lens =>
      simp only [List.cons_append, output, ih (Nat.succ.inj same), List.append_assoc]

structure Measured (len : Nat) (out code : List Byte) (wrong : Bool) : Prop where
  cost_le : usizeLen len + len + 2 ≤ out.length
  out_le : out.length ≤ code.length
  good : wrong = false → out = code ∧ usizeLen len + len + 2 = out.length
  shorter : wrong = true → out.length < code.length

structure Summed (before total : Nat) (out code : List Byte) (wrong : Bool) : Prop where
  sum_le : total ≤ before + out.length
  out_le : out.length ≤ code.length
  good : wrong = false → out = code ∧ total = before + out.length
  shorter : wrong = true → out.length < code.length

theorem framed_length (payload : List Byte) (typeByte : Byte) :
    (framed payload typeByte).length = usizeLen payload.length + payload.length + 2 := by
  rw [usizeLen_text, framed]
  simp only [List.length_append, List.length_cons, List.length_nil]
  omega

theorem measured_framed (payload : List Byte) (typeByte : Byte) :
    Measured payload.length (framed payload typeByte) (framed payload typeByte) false where
  cost_le := Nat.le_of_eq (framed_length payload typeByte).symm
  out_le := Nat.le_refl _
  good := fun _ => ⟨rfl, (framed_length payload typeByte).symm⟩
  shorter := by simp

theorem addUsize_some {checks : Bool} {a b c bound : Nat} (added : addUsize checks a b = some c)
    (le : a + b ≤ bound) (small : bound < isizeEnd) : c = a + b := by
  have room : a + b < usizeEnd := by
    rw [usizeEnd]
    rw [isizeEnd] at small
    omega
  rw [addUsize_fits room] at added
  exact (Option.some.inj added).symm

theorem addCost_some {checks : Bool} {total len sum bound : Nat}
    (added : addCost checks total len = some sum) (le : total + (usizeLen len + len + 2) ≤ bound)
    (small : bound < isizeEnd) :
    sum = total + (usizeLen len + len + 2) := by
  simp only [addCost, Option.bind_eq_bind, Option.bind_eq_some_iff] at added
  obtain ⟨first, one, cost, two, three⟩ := added
  obtain rfl := addUsize_some one (show _ ≤ bound by omega) small
  obtain rfl := addUsize_some two (show _ ≤ bound by omega) small
  exact addUsize_some three le small

theorem summed_nil (total : Nat) : Summed total total [] [] false where
  sum_le := Nat.le_refl _
  out_le := Nat.le_refl _
  good := fun _ => ⟨rfl, rfl⟩
  shorter := by simp

theorem Measured.cons {len before between total : Nat} {out code out' code' : List Byte}
    {wrong wrong' : Bool} (head : Measured len out code wrong)
    (added : between = before + (usizeLen len + len + 2))
    (tail : Summed between total out' code' wrong') :
    Summed before total (out ++ out') (code ++ code') (wrong || wrong') := by
  have cost_le := head.cost_le
  have sum_le := tail.sum_le
  have head_le := head.out_le
  have tail_le := tail.out_le
  refine ⟨?_, ?_, ?_, ?_⟩
  · rw [List.length_append]
    omega
  · rw [List.length_append, List.length_append]
    omega
  · intro fine
    rw [Bool.or_eq_false_iff] at fine
    obtain ⟨rfl, exact_cost⟩ := head.good fine.1
    obtain ⟨rfl, exact_sum⟩ := tail.good fine.2
    refine ⟨rfl, ?_⟩
    rw [List.length_append]
    omega
  · intro either
    rw [List.length_append, List.length_append]
    rcases Bool.or_eq_true_iff.mp either with here | there
    · have := head.shorter here
      omega
    · have := tail.shorter there
      omega

theorem Summed.framed {total : Nat} {out code : List Byte} {wrong : Bool}
    (inner : Summed 0 total out code wrong) (typeByte : Byte) :
    Measured total (Decimal.text total ++ 58 :: (out ++ [typeByte]))
      (PushpinTnetstring.framed code typeByte) wrong := by
  have sum_le := inner.sum_le
  have out_le := inner.out_le
  have digits : usizeLen total ≤ usizeLen code.length := by
    rw [usizeLen_text, usizeLen_text]
    exact Decimal.text_length_mono (by omega)
  have length : (Decimal.text total ++ 58 :: (out ++ [typeByte])).length = usizeLen total +
      out.length + 2 := by
    rw [usizeLen_text]
    simp only [List.length_append, List.length_cons, List.length_nil]
    omega
  refine ⟨?_, ?_, ?_, ?_⟩
  · rw [length]
    omega
  · rw [length, framed_length]
    omega
  · intro fine
    obtain ⟨rfl, exact_sum⟩ := inner.good fine
    rw [Nat.zero_add] at exact_sum
    refine ⟨by rw [PushpinTnetstring.framed, exact_sum], ?_⟩
    rw [length]
    omega
  · intro bad
    have := inner.shorter bad
    rw [length, framed_length]
    omega

theorem measured_min {x : Isize} (low : x.val = -(isizeEnd : Int)) :
    Measured 2 ((Op.int x).bytes 2) (framed (intText x.val) 35) true := by
  have lengths : ((Op.int x).bytes 2).length = 23 ∧ (framed (intText x.val) 35).length = 24 := by
    rw [Op.bytes, Op.pieces, low]
    decide
  refine ⟨?_, ?_, by simp, ?_⟩
  · rw [lengths.1]
    decide
  · omega
  · omega

mutual
theorem Tree.measured {checks : Bool} (t : Tree) {lens : List Nat}
    (sized : t.lens checks = some lens) (small : (output t.ops lens).length < isizeEnd) :
    Measured (lens.headD 0) (output t.ops lens) t.encode t.hasMin := by
  cases t with
  | null =>
    simp only [Tree.lens, Option.some.injEq] at sized
    subst sized
    exact measured_framed [] 126
  | bool b =>
    simp only [Tree.lens, Option.some.injEq] at sized
    subst sized
    have out : output (Tree.bool b).ops [boolLen b] = framed (boolBytes b) 33 := by
      simp [Tree.ops, output, Op.bytes, Op.pieces, framed, boolLen]
    rw [out]
    exact measured_framed (boolBytes b) 33
  | string s =>
    simp only [Tree.lens, Option.some.injEq] at sized
    subst sized
    have out : output (Tree.string s).ops [s.length] = framed s 44 := by
      simp [Tree.ops, output, Op.bytes, Op.pieces, framed]
    rw [out]
    exact measured_framed s 44
  | int x =>
    simp only [Tree.lens, Option.map_eq_some_iff] at sized
    obtain ⟨len, found, rfl⟩ := sized
    have out : output (Tree.int x).ops [len] = (Op.int x).bytes len := by
      simp only [Tree.ops, output, List.append_nil]
    rw [out]
    by_cases low : x.val = -(isizeEnd : Int)
    · have negative : x.val < 0 := by
        rw [low]
        decide
      rw [isizeLen, if_pos negative, if_pos low] at found
      split at found
      · cases found
      · cases found
        simpa [Tree.hasMin, low, Tree.encode] using measured_min low
    · rw [isizeLen_text low, Option.some.injEq] at found
      subst found
      have framed_bytes : (Op.int x).bytes (intText x.val).length = framed (intText x.val) 35 := by
        simp [Op.bytes, Op.pieces, framed]
      rw [framed_bytes]
      simpa [Tree.hasMin, low, Tree.encode] using measured_framed (intText x.val) 35
  | array items =>
    simp only [Tree.lens, Option.map_eq_some_iff] at sized
    obtain ⟨⟨total, lens⟩, inner, rfl⟩ := sized
    have out : output (Tree.array items).ops (total :: (lens ++ [0])) =
        Decimal.text total ++ 58 :: (output (itemsOps items) lens ++ [93]) := by
      rw [Tree.ops, output, output_append (itemsLens_length items inner)]
      simp [Op.bytes, Op.pieces, output]
    rw [out] at small ⊢
    have inside : (output (itemsOps items) lens).length < isizeEnd := by
      simp only [List.length_append, List.length_cons] at small
      omega
    exact (itemsMeasured items inner (by rwa [Nat.zero_add])).framed 93
  | map entries =>
    simp only [Tree.lens, Option.map_eq_some_iff] at sized
    obtain ⟨⟨total, lens⟩, inner, rfl⟩ := sized
    have out : output (Tree.map entries).ops (total :: (lens ++ [0])) =
        Decimal.text total ++ 58 :: (output (entriesOps entries) lens ++ [125]) := by
      rw [Tree.ops, output, output_append (entriesLens_length entries inner)]
      simp [Op.bytes, Op.pieces, output]
    rw [out] at small ⊢
    have inside : (output (entriesOps entries) lens).length < isizeEnd := by
      simp only [List.length_append, List.length_cons] at small
      omega
    exact (entriesMeasured entries inner (by rwa [Nat.zero_add])).framed 125
theorem itemsMeasured {checks : Bool} (items : List Tree) {before total : Nat} {lens : List Nat}
    (sized : itemsLens checks items before = some (total, lens))
    (small : before + (output (itemsOps items) lens).length < isizeEnd) :
    Summed before total (output (itemsOps items) lens) (itemsEncode items)
      (itemsHaveMin items) := by
  cases items with
  | nil =>
    simp only [itemsLens] at sized
    cases sized
    exact summed_nil _
  | cons t items =>
    simp only [itemsLens, Option.bind_eq_some_iff, Option.map_eq_some_iff] at sized
    obtain ⟨first, found, between, added, ⟨total, more⟩, rest, same⟩ := sized
    cases same
    simp only at small
    rw [itemsOps, output_append (t.lens_length found)] at small ⊢
    rw [List.length_append] at small
    have head := t.measured found (by omega)
    have cost_le := head.cost_le
    have sum := addCost_some added (Nat.le_refl _) (by omega)
    have tail := itemsMeasured items rest (by omega)
    exact head.cons sum tail
theorem entriesMeasured {checks : Bool} (entries : List (List Byte × Tree)) {before total : Nat}
    {lens : List Nat} (sized : entriesLens checks entries before = some (total, lens))
    (small : before + (output (entriesOps entries) lens).length < isizeEnd) :
    Summed before total (output (entriesOps entries) lens) (entriesEncode entries)
      (entriesHaveMin entries) := by
  cases entries with
  | nil =>
    simp only [entriesLens] at sized
    cases sized
    exact summed_nil _
  | cons entry entries =>
    obtain ⟨key, t⟩ := entry
    simp only [entriesLens, Option.bind_eq_some_iff, Option.map_eq_some_iff] at sized
    obtain ⟨keyed, key_added, first, found, between, added, ⟨total, more⟩, rest, same⟩ := sized
    cases same
    simp only at small
    have key_bytes : (Op.string key).bytes key.length = framed key 44 := by
      simp [Op.bytes, Op.pieces, framed]
    rw [entriesOps, output, output_append (t.lens_length found), key_bytes] at small ⊢
    rw [List.length_append, List.length_append] at small
    have key_cost := framed_length key 44
    have key_sum := addCost_some key_added (Nat.le_refl _) (by omega)
    have head := t.measured found (by omega)
    have cost_le := head.cost_le
    have sum := addCost_some added (Nat.le_refl _) (by omega)
    have tail := head.cons sum (entriesMeasured entries rest (by omega))
    exact (measured_framed key 44).cons key_sum tail
end

end PushpinTnetstring
