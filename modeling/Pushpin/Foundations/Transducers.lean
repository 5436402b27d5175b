import Mathlib.Data.List.Basic
import Mathlib.Data.Option.Basic

/-!
Transducers that take their input in chunks and may fail, and stacks of them. One
that does not care how its input is cut can be stacked.
-/
namespace Transducers
variable {σ α : Type}

structure Transducer (σ α : Type) where
  update : σ → List α → Option (σ × List α)
  finalize : σ → Option (List α)

namespace Transducer
variable (t : Transducer σ α)

def run : σ → List (List α) → Option (List α)
  | s, [] => t.finalize s
  | s, chunk :: rest => (t.update s chunk).bind fun (s, out) => (run s rest).map (out ++ ·)

def updateAll : List σ → List α → Option (List σ × List α)
  | [], chunk => some ([], chunk)
  | s :: ss, chunk => (t.update s chunk).bind fun (s, mid) =>
    (updateAll ss mid).map fun (ss, out) => (s :: ss, out)

def finalizeAll : List σ → List α → Option (List α)
  | [], out => some out
  | s :: ss, out =>
    (if out = [] then some (s, []) else t.update s out).bind fun (s, out) =>
      (t.finalize s).bind fun last => finalizeAll ss (out ++ last)

def runAll : List σ → List (List α) → Option (List α)
  | ss, [] => t.finalizeAll ss []
  | ss, chunk :: rest => (t.updateAll ss chunk).bind fun (ss, out) =>
    (runAll ss rest).map (out ++ ·)

/-- How the input is cut makes no difference. -/
def Steady (s : σ) : Prop := ∀ chunks chunks' : List (List α), chunks.flatten = chunks'.flatten →
  t.run s chunks = t.run s chunks'

variable {t}

theorem run_single (s : σ) (chunk : List α) :
    t.run s [chunk] = (t.update s chunk).bind fun (s, out) => (t.finalize s).map (out ++ ·) := rfl

theorem map_append_injective (out : List α) : Function.Injective (Option.map (out ++ ·)) :=
  Option.map_injective (List.append_right_injective out)

theorem Steady.update {s s' : σ} {chunk out : List α} (steady : t.Steady s)
    (updated : t.update s chunk = some (s', out)) : t.Steady s' := by
  intro chunks chunks' same
  have whole :=
    steady (chunk :: chunks) (chunk :: chunks') (by rw [List.flatten_cons, List.flatten_cons, same])
  simp only [run, updated, Option.bind_some] at whole
  exact map_append_injective out whole

theorem Steady.run_append {s : σ} (steady : t.Steady s) (chunk rest : List α) :
    t.run s [chunk ++ rest] = (t.update s chunk).bind fun (s, out) =>
      (t.run s [rest]).map (out ++ ·) := by
  have whole := steady [chunk ++ rest] [chunk, rest] (by simp)
  rw [whole]
  rfl

section
variable (ss : List σ) (steady : ∀ s ∈ ss, t.Steady s)
include ss steady

theorem finalizeAll_eq (out : List α) :
    t.finalizeAll ss out = ss.foldlM (fun input s => t.run s [input]) out := by
  induction ss generalizing out with
  | nil => rfl
  | cons s ss ih =>
    have later : ∀ out, t.finalizeAll ss out = ss.foldlM (fun input s => t.run s [input]) out :=
      ih fun s' mem => steady s' (List.mem_cons_of_mem s mem)
    have first := steady s List.mem_cons_self
    rw [finalizeAll, List.foldlM_cons]
    split_ifs with empty
    · have nothing : t.run s [out] = t.finalize s := first [out] [] (by simp [empty])
      rw [nothing]
      simp only [Option.bind_some, List.nil_append, later]
      rfl
    · rw [run_single]
      cases t.update s out with
      | none => rfl
      | some step =>
        obtain ⟨s', mid⟩ := step
        simp only [Option.bind_some]
        cases t.finalize s' with
        | none => rfl
        | some last => exact later (mid ++ last)

theorem updateAll_run (chunk : List α) :
    (∀ ss' out, t.updateAll ss chunk = some (ss', out) → ∀ s ∈ ss', t.Steady s) ∧
    ∀ rest, ss.foldlM (fun input s => t.run s [input]) (chunk ++ rest) =
      (t.updateAll ss chunk).bind fun (ss', out) =>
      (ss'.foldlM (fun input s => t.run s [input]) rest).map (out ++ ·) := by
  induction ss generalizing chunk with
  | nil =>
    refine ⟨?_, fun rest => rfl⟩
    intro ss' out updated s mem
    cases updated
    cases mem
  | cons s ss ih =>
    have first := steady s List.mem_cons_self
    have others : ∀ s' ∈ ss, t.Steady s' := fun s' mem => steady s' (List.mem_cons_of_mem s mem)
    cases updated : t.update s chunk with
    | none =>
      refine ⟨?_, ?_⟩
      · intro ss' out all
        rw [updateAll, updated] at all
        cases all
      · intro rest
        rw [List.foldlM_cons, first.run_append, updateAll, updated]
        rfl
    | some step =>
      obtain ⟨s', mid⟩ := step
      obtain ⟨kept, continues⟩ := ih others mid
      refine ⟨?_, ?_⟩
      · intro ss' out all
        rw [updateAll, updated, Option.bind_some] at all
        obtain ⟨⟨rest', _⟩, below, eq⟩ := Option.map_eq_some_iff.mp all
        cases eq
        intro s'' mem
        rcases List.mem_cons.mp mem with rfl | later
        · exact first.update updated
        · exact kept rest' _ below s'' later
      · intro rest
        rw [List.foldlM_cons, first.run_append, updateAll, updated, Option.bind_some,
          Option.bind_some]
        simp only
        cases below : t.updateAll ss mid with
        | none =>
          cases t.run s' [rest] with
          | none => rfl
          | some next =>
            have failed := continues next
            rw [below] at failed
            exact failed
        | some step =>
          obtain ⟨ss', out⟩ := step
          simp only [Option.map_some, Option.bind_some, List.foldlM_cons]
          cases t.run s' [rest] with
          | none => rfl
          | some next =>
            have goes_on := continues next
            rw [below] at goes_on
            exact goes_on

/-- A stack turns the whole input into what its transducers make of it one after the
    other, however it is cut. -/
theorem runAll_eq (chunks : List (List α)) :
    t.runAll ss chunks = ss.foldlM (fun input s => t.run s [input]) chunks.flatten := by
  induction chunks generalizing ss with
  | nil => exact finalizeAll_eq ss steady []
  | cons chunk chunks ih =>
    obtain ⟨kept, continues⟩ := updateAll_run ss steady chunk
    rw [runAll, List.flatten_cons, continues]
    cases updated : t.updateAll ss chunk with
    | none => rfl
    | some step =>
      obtain ⟨ss', out⟩ := step
      simp only [Option.bind_some, ih ss' (kept ss' out updated)]

end

end Transducer
end Transducers
