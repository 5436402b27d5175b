import Pushpin.Core.TnetstringFrames

namespace PushpinTnetstring
open PushpinRingBuffer Slices Text

def seqFront (src : List Byte) : Except ParseError (SequenceItem × Nat) :=
  match parsePlain src with
  | .error e => .error e
  | .ok (frame, end_) => .ok (⟨frame.ftype, src.take end_⟩, end_)

def isKey (frame : Frame) : Bool := frame.ftype = .string && isUtf8 frame.data

def mapFront (src : List Byte) : Except ParseError (MapItem × Nat) :=
  match parsePlain src with
  | .error e => .error e
  | .ok (kframe, kend) =>
    if isKey kframe then
      match parsePlain (src.drop kend) with
      | .error e => .error e
      | .ok (vframe, vend) => .ok (⟨kframe.data, vframe.ftype, (src.drop kend).take vend⟩,
          kend + vend)
    else .error .invalidKey

def entryOverflows (src : List Byte) : Bool :=
  overflows src ||
    match parsePlain src with
    | .error _ => false
    | .ok (kframe, kend) => isKey kframe && overflows (src.drop kend)

theorem plain_end_le {src : List Byte} {frame : Frame} {end_ : Nat}
    (ok : parsePlain src = .ok (frame, end_)) : 2 ≤ end_ ∧ end_ ≤ src.length := by
  obtain ⟨digits, typeByte, rest, placed⟩ := plain_placed ok
  exact placed.end_le

theorem seqFront_consumes : Consumes seqFront := by
  intro src item k ok
  unfold seqFront at ok
  cases read : parsePlain src with
  | error e =>
    rw [read] at ok
    cases ok
  | ok pair =>
    rw [read] at ok
    cases ok
    have bounds := plain_end_le read
    omega

theorem mapFront_consumes : Consumes mapFront := by
  intro src item k ok
  unfold mapFront at ok
  cases read : parsePlain src with
  | error e =>
    rw [read] at ok
    cases ok
  | ok pair =>
    obtain ⟨kframe, kend⟩ := pair
    rw [read] at ok
    simp only at ok
    split at ok
    · cases value : parsePlain (src.drop kend) with
      | error e =>
        rw [value] at ok
        cases ok
      | ok pair =>
        rw [value] at ok
        cases ok
        have key_bounds := plain_end_le read
        have value_bounds := plain_end_le value
        rw [List.length_drop] at value_bounds
        omega
    · cases ok

structure Inside (src : List Byte) (pos : Nat) : Prop where
  pos_le : pos ≤ src.length
  small : src.length < isizeEnd

theorem Inside.addUsize {src : List Byte} {pos k : Nat} (inside : Inside src pos)
    (fits : k ≤ (src.drop pos).length) (checks : Bool) : addUsize checks pos k = some (pos + k) ∧
    Inside src (pos + k) := by
  obtain ⟨pos_le, small⟩ := inside
  rw [List.length_drop] at fits
  have room : pos + k < usizeEnd := by
    rw [usizeEnd]
    rw [isizeEnd] at small
    omega
  exact ⟨addUsize_fits room, ⟨by omega, small⟩⟩

theorem slice?_from {src : List Byte} {pos k : Nat} (inside : pos ≤ src.length)
    (fits : k ≤ (src.drop pos).length) :
    slice? src pos (pos + k) = some ((src.drop pos).take k) := by
  rw [List.length_drop] at fits
  rw [slice?, if_pos ⟨by omega, by omega⟩, slice, List.drop_take, Nat.add_sub_cancel_left]

theorem not_ended {src : List Byte} {pos : Nat} (more : src.drop pos ≠ []) :
    ¬ pos ≥ src.length := by
  intro ended
  exact more (List.drop_eq_nil_of_le ended)

section
variable (checks : Bool)

theorem sequence_iterates : Iterates seqFront overflows (SequenceIterator.next checks)
    (fun it => Inside it.src it.pos) (fun it => it.src.drop it.pos) where
  ends := by
    intro it inside past
    rw [SequenceIterator.next, if_pos (List.drop_eq_nil_iff.mp past)]
  reads := by
    intro it item k inside more fits read
    unfold seqFront at read
    cases plain : parsePlain (it.src.drop it.pos) with
    | error e =>
      rw [plain] at read
      cases read
    | ok pair =>
      obtain ⟨frame, end_⟩ := pair
      rw [plain] at read
      cases read
      have bounds := plain_end_le plain
      obtain ⟨added, inside'⟩ := inside.addUsize bounds.2 checks
      refine ⟨{ it with pos := it.pos + k }, ?_, inside', List.drop_drop.symm⟩
      rw [SequenceIterator.next, if_neg (not_ended more), parseFrame_plain checks fits, plain]
      simp only [Option.bind_eq_bind, Option.bind_some, added, slice?_from inside.pos_le bounds.2]
      rfl
  stops := by
    intro it e inside more fits read
    unfold seqFront at read
    cases plain : parsePlain (it.src.drop it.pos) with
    | error e' =>
      rw [plain] at read
      cases read
      refine ⟨{ it with pos := it.src.length }, ?_, ⟨Nat.le_refl _, inside.small⟩, List.drop_length⟩
      rw [SequenceIterator.next, if_neg (not_ended more), parseFrame_plain checks fits, plain]
      rfl
    | ok pair =>
      rw [plain] at read
      cases read

theorem sequence_panics {it : SequenceIterator} (more : it.src.drop it.pos ≠ [])
    (large : overflows (it.src.drop it.pos) = true) : SequenceIterator.next true it = none := by
  rw [SequenceIterator.next, if_neg (not_ended more), parseFrame_overflows large]
  rfl

theorem MapIterator.next_key {it : MapIterator} {kframe : Frame} {kend : Nat}
    (inside : Inside it.src it.pos) (more : it.src.drop it.pos ≠ [])
    (fits : overflows (it.src.drop it.pos) = false)
    (plain : parsePlain (it.src.drop it.pos) = .ok (kframe, kend)) :
    MapIterator.next checks it =
      if isKey kframe then do
        match ← parseFrame checks (it.src.drop (it.pos + kend)) with
        | .error e => return (some (.error e), { it with pos := it.src.length })
        | .ok (vframe, vend) => do
          let nextPos ← PushpinTnetstring.addUsize checks (it.pos + kend) vend
          let vdata ← slice? it.src (it.pos + kend) nextPos
          return (some (.ok ⟨kframe.data, vframe.ftype, vdata⟩), { it with pos := nextPos })
      else some (some (.error .invalidKey), { it with pos := it.src.length }) := by
  have bounds := plain_end_le plain
  obtain ⟨added, inside'⟩ := inside.addUsize bounds.2 checks
  have tail : slice? it.src (it.pos + kend) it.src.length = some (it.src.drop (it.pos + kend)) := by
    rw [slice?, if_pos ⟨inside'.pos_le, Nat.le_refl _⟩, slice, List.take_length]
  rw [MapIterator.next, if_neg (not_ended more), parseFrame_plain checks fits, plain]
  simp only [Option.bind_eq_bind, Option.bind_some, isKey]
  by_cases text : kframe.ftype = .string
  · by_cases utf8 : isUtf8 kframe.data = true
    · simp only [text, utf8, ne_eq, not_true_eq_false, if_false, Bool.true_eq_false, decide_true,
        Bool.and_self, if_true, added, Option.bind_some]
      rw [tail]
      rfl
    · simp [text, utf8]
  · simp [text]

theorem map_iterates : Iterates mapFront entryOverflows (MapIterator.next checks)
    (fun it => Inside it.src it.pos) (fun it => it.src.drop it.pos) where
  ends := by
    intro it inside past
    rw [MapIterator.next, if_pos (List.drop_eq_nil_iff.mp past)]
  reads := by
    intro it item k inside more fits read
    unfold mapFront at read
    unfold entryOverflows at fits
    rw [Bool.or_eq_false_iff] at fits
    cases plain : parsePlain (it.src.drop it.pos) with
    | error e =>
      rw [plain] at read
      cases read
    | ok pair =>
      obtain ⟨kframe, kend⟩ := pair
      rw [plain] at read fits
      simp only at read fits
      by_cases key : isKey kframe = true
      · rw [if_pos key] at read
        rw [key, Bool.true_and, List.drop_drop] at fits
        cases value : parsePlain ((it.src.drop it.pos).drop kend) with
        | error e =>
          rw [value] at read
          cases read
        | ok pair =>
          obtain ⟨vframe, vend⟩ := pair
          rw [value] at read
          cases read
          rw [List.drop_drop] at value
          have value_bounds := plain_end_le value
          obtain ⟨_, inside'⟩ := inside.addUsize (plain_end_le plain).2 checks
          obtain ⟨added, inside''⟩ := inside'.addUsize value_bounds.2 checks
          refine ⟨{ it with pos := it.pos + kend + vend }, ?_, inside'', ?_⟩
          · rw [MapIterator.next_key checks inside more fits.1 plain, if_pos key,
              parseFrame_plain checks fits.2, value]
            simp only [Option.bind_eq_bind, Option.bind_some, added,
              slice?_from inside'.pos_le value_bounds.2, List.drop_drop]
            rfl
          · rw [List.drop_drop, Nat.add_assoc]
      · rw [if_neg key] at read
        cases read
  stops := by
    intro it e inside more fits read
    unfold mapFront at read
    unfold entryOverflows at fits
    rw [Bool.or_eq_false_iff] at fits
    have past : Inside it.src it.src.length := ⟨Nat.le_refl _, inside.small⟩
    refine ⟨{ it with pos := it.src.length }, ?_, past, List.drop_length⟩
    cases plain : parsePlain (it.src.drop it.pos) with
    | error e' =>
      rw [plain] at read
      cases read
      rw [MapIterator.next, if_neg (not_ended more), parseFrame_plain checks fits.1, plain]
      rfl
    | ok pair =>
      obtain ⟨kframe, kend⟩ := pair
      rw [plain] at read fits
      simp only at read fits
      rw [MapIterator.next_key checks inside more fits.1 plain]
      by_cases key : isKey kframe = true
      · rw [if_pos key] at read ⊢
        rw [key, Bool.true_and, List.drop_drop] at fits
        rw [List.drop_drop] at read
        rw [parseFrame_plain checks fits.2]
        cases value : parsePlain (it.src.drop (it.pos + kend)) with
        | error e' =>
          rw [value] at read
          cases read
          rfl
        | ok pair =>
          rw [value] at read
          cases read
      · rw [if_neg key] at read ⊢
        cases read
        rfl

theorem map_panics {it : MapIterator} (inside : Inside it.src it.pos)
    (more : it.src.drop it.pos ≠ []) (large : entryOverflows (it.src.drop it.pos) = true) :
    MapIterator.next true it = none := by
  unfold entryOverflows at large
  cases first : overflows (it.src.drop it.pos) with
  | true =>
    rw [MapIterator.next, if_neg (not_ended more), parseFrame_overflows first]
    rfl
  | false =>
    rw [first, Bool.false_or] at large
    cases plain : parsePlain (it.src.drop it.pos) with
    | error e =>
      rw [plain] at large
      cases large
    | ok pair =>
      obtain ⟨kframe, kend⟩ := pair
      rw [plain] at large
      simp only [Bool.and_eq_true, List.drop_drop] at large
      rw [MapIterator.next_key true inside more first plain, if_pos large.1,
        parseFrame_overflows large.2]
      rfl

end

/-- The frame at the front, and the items of an array or a map, are read without
    a panic; a frame that is read is a slice of the bytes, of the length that it
    announces and with its type behind it. -/
structure Safe (checks : Bool) (src : List Byte) : Prop where
  frame : ∃ result, parseFrame checks src = some result ∧ ∀ frame end_, result = .ok (frame, end_) →
    ∃ digits typeByte rest, Placed src frame end_ digits typeByte rest
  array : ∃ result, parseArray checks src = some result ∧ ∀ it, result = .ok it →
    (it.all checks).isSome = true
  map : ∃ result, parseMap checks src = some result ∧ ∀ it, result = .ok it →
    (it.all checks).isSome = true

/-- No announced end is past the last `usize`. -/
def fits (src : List Byte) : Bool :=
  !overflows src &&
    match parsePlain src with
    | .error _ => true
    | .ok (frame, _) =>
      if frame.ftype = .array then itemsFit overflows seqFront frame.data.length frame.data
      else if frame.ftype = .map then itemsFit entryOverflows mapFront frame.data.length frame.data
      else true

theorem data_small {src : List Byte} {frame : Frame} {end_ : Nat}
    (ok : parsePlain src = .ok (frame, end_)) (small : src.length < isizeEnd) :
    Inside frame.data 0 := by
  obtain ⟨digits, typeByte, rest, placed⟩ := plain_placed ok
  have length := congrArg List.length placed.bytes
  simp only [List.length_append, List.length_cons] at length
  exact ⟨Nat.zero_le _, by omega⟩

theorem parseTyped_plain (checks : Bool) (expected : FrameType) {src : List Byte}
    (fits : overflows src = false) :
    parseTyped checks expected src = some (match parsePlain src with
      | .error e => .error e
      | .ok (frame, _) =>
        if frame.ftype = expected then .ok frame.data
          else .error (.wrongType frame.ftype expected)) := by
  rw [parseTyped, parseFrame_plain checks fits]
  cases parsePlain src with
  | error e => rfl
  | ok pair =>
    simp only [Option.bind_eq_bind, Option.bind_some]
    split <;> rfl

theorem sequence_all {checks : Bool} {data : List Byte} (inside : Inside data 0)
    (well : itemsFit overflows seqFront data.length data = true) :
    (SequenceIterator.new data).all checks = some (items seqFront data.length data) := by
  have enough :
      ((SequenceIterator.new data).src.drop (SequenceIterator.new data).pos).length ≤ data.length :=
    Nat.le_refl _
  exact drain_items seqFront_consumes (sequence_iterates checks) data.length inside enough well
    (Nat.le_refl _)

theorem map_all {checks : Bool} {data : List Byte} (inside : Inside data 0)
    (well : itemsFit entryOverflows mapFront data.length data = true) :
    (MapIterator.new data).all checks = some (items mapFront data.length data) := by
  have enough : ((MapIterator.new data).src.drop (MapIterator.new data).pos).length ≤ data.length :=
    Nat.le_refl _
  exact drain_items mapFront_consumes (map_iterates checks) data.length inside enough well
    (Nat.le_refl _)

theorem fits_safe (checks : Bool) {src : List Byte} (small : src.length < isizeEnd)
    (well : fits src = true) : Safe checks src := by
  unfold fits at well
  simp only [Bool.and_eq_true, Bool.not_eq_true'] at well
  obtain ⟨no_overflow, inner⟩ := well
  refine ⟨⟨parsePlain src, parseFrame_plain checks no_overflow,
    fun frame end_ ok => plain_placed ok⟩, ?_, ?_⟩
  · rw [parseArray, parseTyped_plain checks .array no_overflow]
    cases plain : parsePlain src with
    | error e => exact ⟨.error e, rfl, fun it ok => nomatch ok⟩
    | ok pair =>
      obtain ⟨frame, end_⟩ := pair
      rw [plain] at inner
      simp only at inner ⊢
      by_cases array : frame.ftype = .array
      · rw [if_pos array] at inner ⊢
        refine ⟨.ok (SequenceIterator.new frame.data), rfl, ?_⟩
        rintro it ⟨⟩
        rw [sequence_all (data_small plain small) inner]
        rfl
      · rw [if_neg array]
        exact ⟨_, rfl, fun it ok => nomatch ok⟩
  · rw [parseMap, parseTyped_plain checks .map no_overflow]
    cases plain : parsePlain src with
    | error e => exact ⟨.error e, rfl, fun it ok => nomatch ok⟩
    | ok pair =>
      obtain ⟨frame, end_⟩ := pair
      rw [plain] at inner
      simp only at inner ⊢
      by_cases map : frame.ftype = .map
      · rw [if_neg (by rw [map]; decide), if_pos map] at inner
        rw [if_pos map]
        refine ⟨.ok (MapIterator.new frame.data), rfl, ?_⟩
        rintro it ⟨⟩
        rw [map_all (data_small plain small) inner]
        rfl
      · rw [if_neg map]
        exact ⟨_, rfl, fun it ok => nomatch ok⟩

/-- A build that checks for overflow panics at an end that is too large. -/
theorem safe_fits {src : List Byte} (small : src.length < isizeEnd) (safe : Safe true src) :
    fits src = true := by
  obtain ⟨⟨result, read, _⟩, ⟨array, array_read, array_safe⟩, map, map_read, map_safe⟩ := safe
  have no_overflow : overflows src = false := by
    by_contra large
    rw [parseFrame_overflows (by simpa using large)] at read
    cases read
  unfold fits
  rw [no_overflow, Bool.not_false, Bool.true_and]
  cases plain : parsePlain src with
  | error e => rfl
  | ok pair =>
    obtain ⟨frame, end_⟩ := pair
    simp only
    have inside := data_small plain small
    by_cases is_array : frame.ftype = .array
    · rw [if_pos is_array]
      rw [parseArray, parseTyped_plain true .array no_overflow, plain] at array_read
      simp only [if_pos is_array, Option.bind_eq_bind, Option.bind_some] at array_read
      cases array_read
      by_contra unfit
      have panics : SequenceIterator.all true (SequenceIterator.new frame.data) = none := by
        apply drain_panics (sequence_iterates true) (fun _ more large => sequence_panics more large)
          frame.data.length
        · exact inside
        · exact Bool.of_not_eq_true unfit
      have fine := array_safe _ rfl
      rw [panics] at fine
      cases fine
    · rw [if_neg is_array]
      by_cases is_map : frame.ftype = .map
      · rw [if_pos is_map]
        rw [parseMap, parseTyped_plain true .map no_overflow, plain] at map_read
        simp only [if_pos is_map, Option.bind_eq_bind, Option.bind_some] at map_read
        cases map_read
        by_contra unfit
        have panics : MapIterator.all true (MapIterator.new frame.data) = none := by
          apply drain_panics (map_iterates true) map_panics frame.data.length
          · exact inside
          · exact Bool.of_not_eq_true unfit
        have fine := map_safe _ rfl
        rw [panics] at fine
        cases fine
      · rw [if_neg is_map]

/-- The parser is safe in every build exactly on the byte strings that announce
    no end past the last `usize`. -/
theorem parser_is_safe_iff (src : List Byte) (small : src.length < isizeEnd) :
    (∀ checks, Safe checks src) ↔ fits src = true :=
  ⟨fun safe => safe_fits small (safe true), fun well checks => fits_safe checks small well⟩

theorem small_array_is_safe : Safe true (ascii "8:0:~2:hi,]") ∧ Safe false (ascii "8:0:~2:hi,]") :=
  have safe := (parser_is_safe_iff (ascii "8:0:~2:hi,]") (by decide)).mpr (by decide)
  ⟨safe true, safe false⟩

/-- The end of the frame is `2 ^ 64`, which wraps to zero in a release build and
    passes the check of the length. -/
theorem large_size_is_not_safe :
    ¬ ∀ src : List Byte, src.length < isizeEnd → ∃ checks, Safe checks src := by
  intro safe
  obtain ⟨checks, ⟨result, read, _⟩, _⟩ := safe (ascii "18446744073709551594:") (by decide)
  have panics : ∀ checks, parseFrame checks (ascii "18446744073709551594:") = none := by decide
  rw [panics checks] at read
  cases read

end PushpinTnetstring
