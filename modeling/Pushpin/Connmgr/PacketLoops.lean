import Pushpin.Connmgr.ZhttpPacket

namespace PushpinZhttpPacket
open PushpinRingBuffer PushpinTnetstring Text

def collected {α : Type} (drained : Option (List (Except PushpinTnetstring.ParseError α))) :
    List α :=
  (drained.getD []).filterMap Except.toOption

theorem collected_ok {α : Type} (as : List α) : collected (some (as.map .ok)) = as := by
  induction as with
  | nil => rfl
  | cons a as ih => exact congrArg (a :: ·) ih

section
variable {ι α σ : Type} {next : ι → Option (Option (Except PushpinTnetstring.ParseError α) × ι)}

theorem forEach_drain (body : σ → α → Parse σ) (calls : Nat) {it : ι} {as : List α}
    (drained : drain next calls it = some (as.map .ok)) (s : σ) :
    forEach next body calls it s = as.foldlM body s := by
  induction calls generalizing it as s with
  | zero => cases drained
  | succ calls ih =>
    obtain ⟨⟨found, it'⟩, first, rest⟩ := Option.bind_eq_some_iff.mp drained
    rw [forEach, first]
    cases found with
    | none =>
      replace rest : some ([] : List (Except PushpinTnetstring.ParseError α)) = some (as.map .ok) :=
        rest
      obtain rfl : as = [] := List.map_eq_nil_iff.mp (Option.some.inj rest).symm
      rfl
    | some item =>
      obtain ⟨later, tail, last⟩ := Option.bind_eq_some_iff.mp rest
      replace last : item :: later = as.map .ok := Option.some.inj last
      cases as with
      | nil => cases last
      | cons a as =>
        obtain ⟨rfl, rfl⟩ := List.cons.inj last
        simp only [List.foldlM_cons]
        exact congrArg (body s a >>= ·) (funext fun t => ih tail t)

theorem forEach_returns {body : σ → α → Parse σ} (calls : Nat) {it : ι} {s s' : σ}
    (ok : forEach next body calls it s = .returns s') :
    ∃ as : List α, drain next calls it = some (as.map .ok) ∧ as.foldlM body s = .returns s' := by
  induction calls generalizing it s with
  | zero => cases ok
  | succ calls ih =>
    unfold forEach at ok
    split at ok
    · cases ok
    · rename_i it' first
      cases ok
      exact ⟨[], by rw [drain, first]; rfl, rfl⟩
    · cases ok
    · rename_i a it' first
      obtain ⟨t, here, later⟩ := Outcome.bind_returns ok
      obtain ⟨as, tail, folded⟩ := ih later
      refine ⟨a :: as, ?_, ?_⟩
      · rw [drain, first]
        simp only [Option.bind_eq_bind, Option.bind_some, tail]
        rfl
      · rw [List.foldlM_cons, here]
        exact folded

theorem forEach_folds {body : σ → α → Parse σ} {calls : Nat} {it : ι} {s s' : σ}
    (ok : forEach next body calls it s = .returns s') :
    (∀ (τ : Type) (other : τ → α → Parse τ) (t : τ),
      forEach next other calls it t = (collected (drain next calls it)).foldlM other t) ∧
      (collected (drain next calls it)).foldlM body s = .returns s' := by
  obtain ⟨as, drained, folded⟩ := forEach_returns calls ok
  rw [drained, collected_ok]
  exact ⟨fun τ other t => forEach_drain other calls drained t, folded⟩

end

def entriesOf (checks : Bool) (it : MapIterator) : List MapItem := collected (it.all checks)

def itemsOf (checks : Bool) (it : SequenceIterator) : List SequenceItem := collected (it.all checks)

section
variable {σ : Type} {checks : Bool}

theorem forEntries_returns {it : MapIterator} {body : σ → MapItem → Parse σ} {s s' : σ}
    (ok : forEntries checks it s body = .returns s') :
    (∀ (τ : Type) (other : τ → MapItem → Parse τ) (t : τ),
      forEntries checks it t other = (entriesOf checks it).foldlM other t) ∧
      (entriesOf checks it).foldlM body s = .returns s' := forEach_folds ok

theorem forItems_returns {it : SequenceIterator} {body : σ → SequenceItem → Parse σ} {s s' : σ}
    (ok : forItems checks it s body = .returns s') :
    (∀ (τ : Type) (other : τ → SequenceItem → Parse τ) (t : τ),
      forItems checks it t other = (itemsOf checks it).foldlM other t) ∧
      (itemsOf checks it).foldlM body s = .returns s' := forEach_folds ok

inductive CommonStep (casts : Casts) (checks : Bool) (d : CommonData) (e : MapItem) : CommonData →
    Prop where
  | from_ (key : e.key = ascii "from") {s : List Byte} (read : parseBytes checks "from" e.data =
    .returns s) : CommonStep casts checks d e { d with from_ := s }
  | id (key : e.key = ascii "id") {ids : List Id} (read : parseId casts checks e d.ids =
    .returns ids) : CommonStep casts checks d e { d with ids := ids }
  | seq (key : e.key = ascii "seq") {ids : List Id} (read : parseSeq casts checks e.data d.ids =
    .returns ids) : CommonStep casts checks d e { d with ids := ids }
  | type (key : e.key = ascii "type") {s : Str} (read : parseStr checks "type" "type" e.data =
    .returns s) : CommonStep casts checks d e { d with ptypeStr := s }
  | ext (key : e.key = ascii "ext") {multi : Bool} (read : parseExt checks e.data d.multi =
    .returns multi) : CommonStep casts checks d e { d with multi := multi }
  | other (keys : e.key ≠ ascii "from" ∧ e.key ≠ ascii "id" ∧ e.key ≠ ascii "seq" ∧
    e.key ≠ ascii "type") : CommonStep casts checks d e d

theorem commonEntry_step {casts : Casts} {d d' : CommonData} {e : MapItem}
    (ok : commonEntry casts checks d e = .returns d') : CommonStep casts checks d e d' := by
  unfold commonEntry at ok
  split at ok
  · rename_i key
    obtain ⟨s, read, last⟩ := Outcome.bind_returns ok
    cases last
    exact .from_ key read
  · rename_i not_from
    split at ok
    · rename_i key
      obtain ⟨ids, read, last⟩ := Outcome.bind_returns ok
      cases last
      exact .id key read
    · rename_i not_id
      split at ok
      · rename_i key
        obtain ⟨ids, read, last⟩ := Outcome.bind_returns ok
        cases last
        exact .seq key read
      · rename_i not_seq
        split at ok
        · rename_i key
          obtain ⟨s, read, last⟩ := Outcome.bind_returns ok
          cases last
          exact .type key read
        · rename_i not_type
          split at ok
          · rename_i key
            obtain ⟨multi, read, last⟩ := Outcome.bind_returns ok
            cases last
            exact .ext key read
          · cases ok
            exact .other ⟨not_from, not_id, not_seq, not_type⟩

theorem lift_returns {α : Type} {x : Option (Except PushpinTnetstring.ParseError α)} {a : α}
    (ok : lift x = .returns a) : x = some (.ok a) := by
  match x, ok with
  | some (.ok b), rfl => rfl

theorem withField_returns {α : Type} {field : String}
    {x : Option (Except PushpinTnetstring.ParseError α)} {a : α}
    (ok : withField field x = .returns a) : x = some (.ok a) := by
  unfold withField at ok
  split at ok
  · cases ok
  · exact lift_returns ok

theorem parseStr_returns {field utf8Field : String} {data : List Byte} {s : Str}
    (ok : parseStr checks field utf8Field data = .returns s) :
    parseString checks data = some (.ok s.bytes) := by
  obtain ⟨t, read, text⟩ := Outcome.bind_returns ok
  split at text
  · cases text
    exact withField_returns read
  · cases text

end
end PushpinZhttpPacket
