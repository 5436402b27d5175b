import Pushpin.Foundations.Transducers
import Pushpin.Handler.Filters

namespace PushpinFilters
open PushpinFormat Transducers

def rendering : Transducer ContentRenderer UInt8 where
  update r chunk :=
    match r.update chunk with
    | (r, .ok out) => some (r, out)
    | (_, .error _) => none
  finalize r := r.finalize.2.toOption

theorem renderer_process_iff (r : ContentRenderer) (data out : Bytes) :
    (r.process data).toOption = some out ↔
    Template (contentHandler r.defaultId r.hex) data out := by
  have whole := @process_iff_template (contentHandler r.defaultId r.hex) data out data.length
  simp only [and_true] at whole
  rw [← whole, ContentRenderer.process]
  cases done : process (contentHandler r.defaultId r.hex) false data with
  | error e => exact iff_of_false (fun h => by cases h) (fun h => by cases h)
  | ok answer =>
    obtain ⟨found, stop⟩ := answer
    have at_end := (process_iff_template.mp done).2
    subst at_end
    constructor
    · intro same
      cases same
      rfl
    · intro same
      cases same
      rfl

theorem rendering_run (r : ContentRenderer) (chunks : List Bytes) :
    rendering.run r chunks = (r.process (r.buf ++ chunks.flatten)).toOption := by
  induction chunks generalizing r with
  | nil => rw [Transducer.run, List.flatten_nil, List.append_nil]; rfl
  | cons chunk chunks ih =>
    apply Option.ext
    intro whole
    rw [renderer_process_iff, List.flatten_cons, ← List.append_assoc, Transducer.run]
    simp only [rendering, ContentRenderer.update]
    cases done : process (contentHandler r.defaultId r.hex) true (r.buf ++ chunk) with
    | error e =>
      have sound : Mode.text.Sound := trivial
      exact iff_of_false (fun h => by cases h) (processFrom_error sound done)
    | ok answer =>
      obtain ⟨out, stop⟩ := answer
      have later := ih { r with buf := (r.buf ++ chunk).drop stop }
      simp only [rendering, ContentRenderer.update] at later
      simp only [Option.bind_some, later, Option.map_eq_some_iff, renderer_process_iff]
      rw [template_resumes done]
      constructor
      · rintro ⟨more, template, rfl⟩
        exact ⟨more, rfl, template⟩
      · rintro ⟨more, rfl, template⟩
        exact ⟨more, template, rfl⟩

section
variable (fromUtf8 : Bytes → String)

def filtering (context : Context) : Transducer Filter UInt8 where
  update f chunk :=
    match f.update fromUtf8 context (some chunk) with
    | (f, some out) => some (f, out)
    | (_, none) => none
  finalize f := (f.finalize fromUtf8 context).2

def stackChunks (context : Context) : List Filter → List Bytes → Option Bytes
  | filters, [] => (finalizeAll fromUtf8 context filters []).toOption
  | filters, chunk :: rest =>
    match updateAll fromUtf8 context filters (some chunk) with
    | (filters, .ok (some out)) => (stackChunks context filters rest).map (out ++ ·)
    | _ => none

def buildIdOnce (context : Context) (content : Bytes) : Option Bytes :=
  (newRenderer fromUtf8 context).toOption.bind fun r => (r.process content).toOption

variable {fromUtf8} {context : Context}

section
variable (f : Filter) (kind : f.kind = .buildId)
include f kind

theorem filtering_update (chunk : Bytes) :
    (filtering fromUtf8 context).update f chunk =
      (f.ensureInit fromUtf8 context).toOption.bind fun r =>
      (rendering.update r chunk).map fun (r, out) =>
        ({ f with idContentRenderer := some r }, out) := by
  simp only [filtering, rendering, Filter.update, kind]
  cases f.ensureInit fromUtf8 context with
  | error e => rfl
  | ok r =>
    simp only [Filter.rendered, Option.getD_some]
    cases updated : r.update chunk with
    | mk next answer =>
      cases answer with
      | error e => simp [updated, Except.toOption]
      | ok out => simp [updated, Except.toOption, kind]

theorem filtering_finalize :
    (filtering fromUtf8 context).finalize f =
      (f.ensureInit fromUtf8 context).toOption.bind fun r => rendering.finalize r := by
  simp only [filtering, rendering, Filter.finalize, kind]
  cases f.ensureInit fromUtf8 context with
  | error e => rfl
  | ok r =>
    simp only [Filter.rendered]
    cases finished : r.finalize.2 with
    | error e => simp [finished, Except.toOption]
    | ok out => simp [finished, Except.toOption]

theorem filtering_run_of_renderer {r : ContentRenderer}
    (made : f.ensureInit fromUtf8 context = .ok r) (chunks : List Bytes) :
    (filtering fromUtf8 context).run f chunks = rendering.run r chunks := by
  induction chunks generalizing f r with
  | nil =>
    rw [Transducer.run, filtering_finalize f kind, made]
    rfl
  | cons chunk chunks ih =>
    rw [Transducer.run, Transducer.run, filtering_update f kind, made]
    cases updated : rendering.update r chunk with
    | none => simp [Except.toOption, updated]
    | some step =>
      obtain ⟨next, out⟩ := step
      have later := @ih { f with idContentRenderer := some next } kind next rfl
      simp [Except.toOption, updated, later]

end

theorem filtering_run (chunks : List Bytes) :
    (filtering fromUtf8 context).run (Filter.new .buildId)
    chunks = buildIdOnce fromUtf8 context chunks.flatten := by
  unfold buildIdOnce
  cases made : newRenderer fromUtf8 context with
  | error e =>
    have failed : (Filter.new .buildId).ensureInit fromUtf8 context = .error e := made
    cases chunks with
    | nil =>
      rw [Transducer.run, filtering_finalize (Filter.new .buildId) rfl, failed]
      rfl
    | cons chunk chunks =>
      rw [Transducer.run, filtering_update (Filter.new .buildId) rfl, failed]
      rfl
  | ok r =>
    have empty := (newRenderer_ok_iff.mp made).2
    rw [filtering_run_of_renderer (Filter.new .buildId) rfl made, rendering_run, empty,
      List.nil_append]
    rfl

theorem filtering_steady : (filtering fromUtf8 context).Steady (Filter.new .buildId) := by
  intro chunks chunks' same
  rw [filtering_run, filtering_run, same]

theorem updateAll_eq (filters : List Filter) (chunk : Bytes) :
    (filtering fromUtf8 context).updateAll filters chunk =
      match updateAll fromUtf8 context filters (some chunk) with
      | (filters, .ok (some out)) => some (filters, out)
      | _ => none := by
  induction filters generalizing chunk with
  | nil => rfl
  | cons f filters ih =>
    simp only [Transducer.updateAll, filtering, updateAll]
    cases f.update fromUtf8 context (some chunk) with
    | mk f answer =>
      cases answer with
      | none => rfl
      | some mid =>
        have rest := ih mid
        simp only [filtering] at rest
        simp only [Option.bind_some, rest]
        cases updateAll fromUtf8 context filters (some mid) with
        | mk others answer =>
          cases answer with
          | error e => rfl
          | ok out => cases out <;> rfl

theorem finalizeAll_eq (filters : List Filter) (out : Bytes) :
    (filtering fromUtf8 context).finalizeAll filters out =
    (finalizeAll fromUtf8 context filters out).toOption := by
  induction filters generalizing out with
  | nil => rfl
  | cons f filters ih =>
    simp only [filtering] at ih
    simp only [Transducer.finalizeAll, filtering, finalizeAll]
    by_cases empty : out = []
    · simp only [empty, if_true, Option.bind_some, ne_eq, not_true_eq_false, if_false]
      cases f.finalize fromUtf8 context with
      | mk g last =>
        cases last with
        | none => rfl
        | some last => exact ih _
    · simp only [empty, if_false, ne_eq, not_false_eq_true, if_true]
      cases f.update fromUtf8 context (some out) with
      | mk f answer =>
        cases answer with
        | none => rfl
        | some mid =>
          simp only [Option.bind_some]
          cases f.finalize fromUtf8 context with
          | mk g last =>
            cases last with
            | none => rfl
            | some last => exact ih _

theorem stackChunks_eq (filters : List Filter) (chunks : List Bytes) :
    stackChunks fromUtf8 context filters chunks =
      (filtering fromUtf8 context).runAll filters chunks := by
  induction chunks generalizing filters with
  | nil => exact (finalizeAll_eq filters []).symm
  | cons chunk chunks ih =>
    rw [stackChunks, Transducer.runAll, updateAll_eq]
    split
    · rw [ih]
      rfl
    · rfl

variable (fromUtf8) (context)

/-- However content is cut into chunks: a renderer gives what it gives for the whole,
    and a stack of `build-id` filters what they give for the whole one after the other,
    and both fail exactly if that does. -/
theorem rendering_ignores_chunks (defaultId : Option Bytes) (hex : Bool) (filters : Nat)
    (chunks : List Bytes) : rendering.run ⟨defaultId, hex, []⟩ chunks =
        ((⟨defaultId, hex, []⟩ : ContentRenderer).process chunks.flatten).toOption ∧
      stackChunks fromUtf8 context (newFilters (List.replicate filters "build-id")) chunks =
        (List.replicate filters ()).foldlM (fun content _ => buildIdOnce fromUtf8 context content)
        chunks.flatten := by
  refine ⟨by rw [rendering_run, List.nil_append], ?_⟩
  have named : newFilters (List.replicate filters "build-id") = List.replicate filters
      (Filter.new .buildId) := by
    have names := newFilters_names (List.replicate filters .buildId)
    rwa [List.map_replicate, List.map_replicate] at names
  have steady : ∀ f ∈ List.replicate filters (Filter.new .buildId),
      (filtering fromUtf8 context).Steady f := by
    intro f mem
    rw [List.eq_of_mem_replicate mem]
    exact filtering_steady
  rw [stackChunks_eq, named, Transducer.runAll_eq _ steady]
  generalize chunks.flatten = content
  clear named steady
  induction filters generalizing content with
  | zero => rfl
  | succ filters ih =>
    simp only [List.replicate_succ, List.foldlM_cons, filtering_run, List.flatten_singleton]
    congr 1
    funext content
    exact ih content

end

end PushpinFilters
