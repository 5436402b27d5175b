import Mathlib.Data.String.Basic
import Pushpin.Foundations.OrderedMap
import Pushpin.Handler.Format

/-!
The filters of a subscription, and the two ways to run a list of them: at once on
a stream of content (`FilterStack`), and one after the other on a whole message
(`MessageFilterStack`). A null string or byte array is `none`.
-/
namespace PushpinFilters
open OrderedMaps PushpinFormat

abbrev Meta := OrderedMap String (Option String)

def valueOf (m : Meta) (key : String) : Option String := (m.get? key).join

def toUtf8 (s : String) : Bytes := s.toUTF8.data.toList

inductive SendAction where
  | send
  | drop
deriving DecidableEq, Repr

structure Context where
  prevIds : Meta
  subscriptionMeta : Meta
  publishMeta : Meta

inductive Kind where
  | skipSelf
  | skipUsers
  | requireSub
  | buildId
  | varSubst
deriving DecidableEq, Repr

def Kind.name : Kind → String
  | .skipSelf => "skip-self"
  | .skipUsers => "skip-users"
  | .requireSub => "require-sub"
  | .buildId => "build-id"
  | .varSubst => "var-subst"

def create (name : String) : Option Kind :=
  if name = "skip-self" then some .skipSelf
  else if name = "skip-users" then some .skipUsers
  else if name = "require-sub" then some .requireSub
  else if name = "build-id" then some .buildId
  else if name = "var-subst" then some .varSubst
  else none

def messageFilterStackSizeMax : Nat := 5

def isSpace (c : Char) : Bool :=
  c.val = 0x20 || (0x09 ≤ c.val && c.val ≤ 0x0d) || c.val = 0x85 || c.val = 0xa0 || c.val =
    0x1680 ||
  (0x2000 ≤ c.val && c.val ≤ 0x200a) || c.val = 0x2028 || c.val = 0x2029 || c.val =
    0x202f || c.val = 0x205f ||
  c.val = 0x3000

def trimmed (s : List Char) : List Char := ((s.dropWhile isSpace).reverse.dropWhile isSpace).reverse

def splitComma : List Char → List (List Char)
  | [] => [[]]
  | c :: rest =>
    match splitComma rest with
    | [] => [[c]]
    | part :: parts => if c = ',' then [] :: part :: parts else (c :: part) :: parts

def skipUsers (value : Option String) : List (List Char) :=
  ((splitComma (value.getD "").toList).map trimmed).filter (· ≠ [])

def sendAction (context : Context) : Kind → SendAction
  | .skipSelf =>
    let user := (valueOf context.subscriptionMeta "user").getD ""
    let sender := (valueOf context.publishMeta "sender").getD ""
    if user ≠ "" ∧ sender ≠ "" ∧ sender = user then .drop else .send
  | .skipUsers =>
    let user := (valueOf context.subscriptionMeta "user").getD ""
    if user ≠ "" ∧ user.toList ∈ skipUsers (valueOf context.publishMeta "skip_users") then .drop
      else .send
  | .requireSub =>
    let sub := (valueOf context.publishMeta "require_sub").getD ""
    if sub ≠ "" ∧ context.prevIds.get? sub = none then .drop else .send
  | .buildId => .send
  | .varSubst => .send

section
-- how a byte array becomes a string
variable (fromUtf8 : Bytes → String)

def unknownDirective (type : UInt8) : String := "Unknown directive '" ++ charText type ++ "'"

def noVariable (arg : Bytes) : String := "No such variable '" ++ fromUtf8 arg ++ "'"

def varHandler (vars : Meta) : Handler := fun type arg =>
  if type ≠ 115 then .error (unknownDirective type)
  else match arg with
    | none => .error "Directive 's' requires argument"
    | some arg =>
      match valueOf vars (fromUtf8 arg) with
      | none => .error (noVariable fromUtf8 arg)
      | some value => .ok (toUtf8 value)

def hexDigit (n : UInt8) : UInt8 := if n < 10 then 48 + n else 87 + n

def toHex (bytes : Bytes) : Bytes := bytes.flatMap fun b => [hexDigit (b / 16), hexDigit (b % 16)]

/-- The handler of content: `%I` is the default identifier, `%(id)I` the one given.
    `toHex` of no bytes is null, which is an error without a text. -/
def contentHandler (defaultId : Option Bytes) (hex : Bool) : Handler := fun type arg =>
  if type ≠ 73 then .error (unknownDirective type)
  else match arg.or defaultId with
    | none => .error "No ID specified and no default ID in context"
    | some id => if hex then if id = [] then .error "" else .ok (toHex id) else .ok id

structure ContentRenderer where
  defaultId : Option Bytes
  hex : Bool
  buf : Bytes

def ContentRenderer.update (r : ContentRenderer) (data : Bytes) :
    ContentRenderer × Except String Bytes :=
  let buf := r.buf ++ data
  match process (contentHandler r.defaultId r.hex) true buf with
  | .ok (out, partialPos) => ({ r with buf := buf.drop partialPos }, .ok out)
  | .error e => ({ r with buf := buf }, .error e)

def ContentRenderer.finalize (r : ContentRenderer) : ContentRenderer × Except String Bytes :=
  ({ r with buf := [] }, (process (contentHandler r.defaultId r.hex) false r.buf).map Prod.fst)

def ContentRenderer.process (r : ContentRenderer) (data : Bytes) : Except String Bytes :=
  (PushpinFormat.process (contentHandler r.defaultId r.hex) false data).map Prod.fst

structure Filter where
  kind : Kind
  idContentRenderer : Option ContentRenderer
  errorMessage : Option String

def Filter.new (kind : Kind) : Filter := ⟨kind, none, none⟩

def renderedId (context : Context) (idFormat : String) : Except String (Option Bytes) :=
  if context.prevIds.isEmpty then .ok none
  else
    match process (varHandler fromUtf8 context.prevIds) false (toUtf8 idFormat) with
    | .ok (id, _) => .ok (some id)
    | .error e => .error ("failed to render ID: " ++ e)

def idEncodingHex (context : Context) : Except String Bool :=
  match valueOf context.subscriptionMeta "id_encoding" with
  | none => .ok false
  | some encoding => if encoding = "hex" then .ok true
      else .error ("unsupported encoding: " ++ encoding)

def newRenderer (context : Context) : Except String ContentRenderer :=
  match valueOf context.subscriptionMeta "id_format" with
  | none => .error "no sub meta 'id_format'"
  | some idFormat =>
    match renderedId fromUtf8 context idFormat, idEncodingHex context with
    | .error e, _ => .error e
    | .ok _, .error e => .error e
    | .ok id, .ok hex => .ok ⟨id, hex, []⟩

namespace Filter

def ensureInit (f : Filter) (context : Context) : Except String ContentRenderer :=
  match f.idContentRenderer with
  | some r => .ok r
  | none => newRenderer fromUtf8 context

def rendered (f : Filter) (answer : ContentRenderer × Except String Bytes) :
    Filter × Option Bytes :=
  match answer.2 with
  | .ok out => ({ f with idContentRenderer := some answer.1 }, some out)
  | .error e => ({ f with idContentRenderer := some answer.1, errorMessage := some e }, none)

def update (f : Filter) (context : Context) (data : Option Bytes) : Filter × Option Bytes :=
  match f.kind with
  | .buildId =>
    match f.ensureInit fromUtf8 context with
    | .error e => ({ f with errorMessage := some e }, none)
    | .ok r => f.rendered (r.update (data.getD []))
  | .varSubst =>
    match process (varHandler fromUtf8 context.subscriptionMeta) false (data.getD []) with
    | .ok (out, _) => (f, some out)
    | .error e => ({ f with errorMessage := some e }, none)
  | _ => (f, data)

def finalize (f : Filter) (context : Context) : Filter × Option Bytes :=
  match f.kind with
  | .buildId =>
    match f.ensureInit fromUtf8 context with
    | .error e => ({ f with errorMessage := some e }, none)
    | .ok r => f.rendered r.finalize
  | _ => (f, some [])

def process (f : Filter) (context : Context) (data : Option Bytes) : Filter × Option Bytes :=
  match f.update fromUtf8 context data with
  | (f, none) => (f, none)
  | (f, some out) =>
    match f.finalize fromUtf8 context with
    | (f, none) => (f, none)
    | (f, some buf) => (f, some (out ++ buf))

end Filter

structure Result where
  sendAction : Option SendAction
  content : Option Bytes
  errorMessage : Option String
deriving DecidableEq, Repr

/-- The one-shot run of a filter. An error that it records stays in the filter:
    nothing copies it to the result. -/
def Filter.start (f : Filter) (context : Context) (content : Option Bytes) : Result :=
  match f.kind with
  | .buildId | .varSubst => ⟨some (sendAction context f.kind),
      (f.process fromUtf8 context content).2, none⟩
  | _ => ⟨some (sendAction context f.kind), content, none⟩

/-- `nextFilter` and `filterFinished`: the filters that are left, the content so
    far and the last action. -/
def runFilters (context : Context) : List Filter → Option Bytes → SendAction → Result
  | [], content, last => ⟨some last, content, none⟩
  | f :: rest, content, _ =>
    let result := f.start fromUtf8 context content
    match result.errorMessage with
    | some e => ⟨none, none, some e⟩
    | none =>
      match result.sendAction with
      | some .drop => ⟨some .drop, result.content, none⟩
      | _ => runFilters context rest result.content .send

def newFilters (names : List String) : List Filter := (names.filterMap create).map Filter.new

/-- `MessageFilterStack`: `none` is the failed assertion of its constructor. -/
def messageFilterStack (names : List String) (context : Context) (content : Option Bytes) :
    Option Result :=
  if names.length ≤ messageFilterStackSizeMax then
    some (runFilters fromUtf8 context (newFilters names) content .send)
  else none

def updateAll (context : Context) : List Filter → Option Bytes →
    List Filter × Except (Option String) (Option Bytes)
  | [], data => ([], .ok data)
  | f :: rest, data =>
    match f.update fromUtf8 context data with
    | (f, none) => (f :: rest, .error (some (f.kind.name ++ ": " ++ f.errorMessage.getD "")))
    | (f, some out) =>
      let (rest, answer) := updateAll context rest (some out)
      (f :: rest, answer)

def finalizeAll (context : Context) : List Filter → Bytes → Except (Option String) Bytes
  | [], out => .ok out
  | f :: rest, out =>
    let failed (f : Filter) := Except.error (some (f.kind.name ++ ": " ++ f.errorMessage.getD ""))
    let (f, out) := if out ≠ [] then f.update fromUtf8 context (some out) else (f, some out)
    match out with
    | none => failed f
    | some out =>
      match f.finalize fromUtf8 context with
      | (f, none) => failed f
      | (_, some buf) => finalizeAll context rest (out ++ buf)

def filterStackProcess (names : List String) (context : Context) (content : Option Bytes) :
    Option Bytes :=
  match updateAll fromUtf8 context (newFilters names) content with
  | (filters, .ok (some out)) =>
    match finalizeAll fromUtf8 context filters [] with
    | .ok buf => some (out ++ buf)
    | .error _ => none
  | _ => none

def Ready (context : Context) (id : Option Bytes) (hex : Bool) : Prop :=
  (∃ idFormat, valueOf context.subscriptionMeta "id_format" = some idFormat ∧
    if context.prevIds.isEmpty then id = none
    else ∃ out, Template (varHandler fromUtf8 context.prevIds) (toUtf8 idFormat) out ∧
      id = some out) ∧
  (valueOf context.subscriptionMeta "id_encoding" = none ∧ hex = false ∨
    valueOf context.subscriptionMeta "id_encoding" = some "hex" ∧ hex = true)

def Gives (context : Context) : Kind → Option Bytes → Bytes → Prop
  | .buildId, content, out => ∃ id hex, Ready fromUtf8 context id hex ∧
      Template (contentHandler id hex) (content.getD []) out
  | .varSubst, content, out => Template (varHandler fromUtf8 context.subscriptionMeta)
    (content.getD []) out
  | _, content, out => content = some out

def Passes (context : Context) : List Kind → Option Bytes → Bytes → Prop
  | [], content, out => content = some out
  | kind :: rest, content, out => ∃ between, Gives fromUtf8 context kind content between ∧
      Passes context rest (some between) out

variable {fromUtf8}

theorem template_unique {handler : Handler} {format one other : Bytes}
    (first : Template handler format one) (second : Template handler format other) :
    one = other := by
  have processed := process_iff_template.mpr ⟨first, rfl⟩
  rw [process_iff_template.mpr ⟨second, rfl⟩] at processed
  cases processed
  rfl

variable {context : Context}

theorem renderedId_ok_iff {idFormat : String} {id : Option Bytes} :
    renderedId fromUtf8 context idFormat = .ok id ↔
      if context.prevIds.isEmpty then id = none
      else ∃ out, Template (varHandler fromUtf8 context.prevIds) (toUtf8 idFormat) out ∧
        id = some out := by
  unfold renderedId
  split_ifs with empty
  · constructor
    · intro same
      cases same
      rfl
    · rintro rfl
      rfl
  · cases processed : process (varHandler fromUtf8 context.prevIds) false (toUtf8 idFormat) with
    | error e =>
      constructor
      · intro absurd
        cases absurd
      · rintro ⟨out, template, _⟩
        rw [process_iff_template.mpr ⟨template, rfl⟩] at processed
        cases processed
    | ok answer =>
      obtain ⟨out, stop⟩ := answer
      have template := (process_iff_template.mp processed).1
      constructor
      · intro same
        cases same
        exact ⟨out, template, rfl⟩
      · rintro ⟨other, alsoTemplate, rfl⟩
        rw [template_unique template alsoTemplate]

theorem idEncodingHex_ok_iff {hex : Bool} :
    idEncodingHex context = .ok hex ↔ valueOf context.subscriptionMeta "id_encoding" = none ∧
      hex = false ∨ valueOf context.subscriptionMeta "id_encoding" = some "hex" ∧ hex = true := by
  unfold idEncodingHex
  cases valueOf context.subscriptionMeta "id_encoding" with
  | none => simp [eq_comm]
  | some encoding =>
    by_cases isHex : encoding = "hex"
    · simp [isHex, eq_comm]
    · simp [isHex]

theorem newRenderer_ok_iff {r : ContentRenderer} :
    newRenderer fromUtf8 context = .ok r ↔ Ready fromUtf8 context r.defaultId r.hex ∧
      r.buf = [] := by
  obtain ⟨id, hex, buf⟩ := r
  unfold newRenderer Ready
  cases valueOf context.subscriptionMeta "id_format" with
  | none => simp
  | some idFormat =>
    simp only [Option.some.injEq, exists_eq_left', ← renderedId_ok_iff, ← idEncodingHex_ok_iff]
    cases renderedId fromUtf8 context idFormat with
    | error e => simp
    | ok foundId =>
      cases idEncodingHex context with
      | error e => simp
      | ok foundHex => simp [eq_comm, and_assoc]

theorem renderer_update_finalize (r : ContentRenderer) (empty : r.buf = []) (data : Bytes) :
    match r.update data with
    | (next, .ok out) => (∀ other, Template (contentHandler r.defaultId r.hex) data other →
      other = out) ∧
        ∀ more, next.finalize.2 = .ok more ↔ Template (contentHandler r.defaultId r.hex) data out ∧
          more = []
    | (_, .error _) => ∀ out, ¬ Template (contentHandler r.defaultId r.hex) data out := by
  simp only [ContentRenderer.update, empty, List.nil_append]
  cases processed : process (contentHandler r.defaultId r.hex) true data with
  | error e =>
    intro out template
    rw [process_whole.mpr template] at processed
    cases processed
  | ok answer =>
    obtain ⟨out, stop⟩ := answer
    refine ⟨?_, fun more => ?_⟩
    · intro other template
      rw [process_whole.mpr template] at processed
      cases processed
      rfl
    simp only [ContentRenderer.finalize]
    constructor
    · intro finished
      cases last : process (contentHandler r.defaultId r.hex) false (data.drop stop) with
      | error e =>
        rw [last] at finished
        cases finished
      | ok lastAnswer =>
        obtain ⟨lastOut, lastStop⟩ := lastAnswer
        have atEnd := process_rest processed last
        rw [atEnd, List.drop_length] at last
        rw [atEnd] at processed finished
        rw [List.drop_length] at finished
        cases finished
        exact ⟨process_whole.mp processed, rfl⟩
    · rintro ⟨template, rfl⟩
      rw [process_whole.mpr template] at processed
      cases processed
      rw [List.drop_length]
      rfl

theorem update_finalize (fromUtf8 : Bytes → String) (context : Context) (kind : Kind)
    (content : Option Bytes) : match (Filter.new kind).update fromUtf8 context content with
    | (f, some out) => (∀ other, Gives fromUtf8 context kind content other → other = out) ∧
        ∀ more, (f.finalize fromUtf8 context).2 = some more ↔
          Gives fromUtf8 context kind content out ∧ more = []
    | (_, none) => ∀ out, ¬ Gives fromUtf8 context kind content out := by
  cases kind with
  | skipSelf => cases content <;> simp [Filter.update, Filter.new, Filter.finalize, Gives, eq_comm]
  | skipUsers => cases content <;> simp [Filter.update, Filter.new, Filter.finalize, Gives, eq_comm]
  | requireSub =>
      cases content <;> simp [Filter.update, Filter.new, Filter.finalize, Gives, eq_comm]
  | varSubst =>
    simp only [Filter.update, Filter.new, Gives]
    cases processed :
      process (varHandler fromUtf8 context.subscriptionMeta) false (content.getD []) with
    | error e =>
      intro out template
      rw [process_iff_template.mpr ⟨template, rfl⟩] at processed
      cases processed
    | ok answer =>
      have template := (process_iff_template.mp processed).1
      refine ⟨fun other alsoTemplate => template_unique alsoTemplate template, fun more => ?_⟩
      simp [Filter.finalize, template, eq_comm]
  | buildId =>
    simp only [Filter.update, Filter.new, Gives, Filter.ensureInit]
    cases made : newRenderer fromUtf8 context with
    | error e =>
      rintro out ⟨id, hex, ready, _⟩
      rw [(newRenderer_ok_iff (r := ⟨id, hex, []⟩)).mpr ⟨ready, rfl⟩] at made
      cases made
    | ok r =>
      obtain ⟨ready, empty⟩ := newRenderer_ok_iff.mp made
      have gives_iff : ∀ out, (∃ id hex, Ready fromUtf8 context id hex ∧
          Template (contentHandler id hex) (content.getD []) out) ↔
          Template (contentHandler r.defaultId r.hex) (content.getD []) out := by
        intro out
        constructor
        · rintro ⟨id, hex, alsoReady, template⟩
          rw [(newRenderer_ok_iff (r := ⟨id, hex, []⟩)).mpr ⟨alsoReady, rfl⟩] at made
          cases made
          exact template
        · intro template
          exact ⟨_, _, ready, template⟩
      simp only [gives_iff]
      have renders := renderer_update_finalize r empty (content.getD [])
      cases updated : r.update (content.getD []) with
      | mk next answer =>
        rw [updated] at renders
        cases answer with
        | error e => exact renders
        | ok out =>
          refine ⟨renders.1, fun more => ?_⟩
          rw [← renders.2 more]
          simp only [Filter.rendered, Filter.finalize, Filter.ensureInit]
          cases next.finalize.2 <;> simp

variable {kind : Kind} {content : Option Bytes} {out : Bytes}

theorem update_of_gives
    (gives : Gives fromUtf8 context kind content out) :
    ∃ f, (Filter.new kind).update fromUtf8 context content = (f, some out) ∧
      ∃ g, f.finalize fromUtf8 context = (g, some []) := by
  have updated := update_finalize fromUtf8 context kind content
  split at updated
  · rename_i f found same
    obtain ⟨only, finishes⟩ := updated
    obtain rfl := only out gives
    exact ⟨f, same, _, Prod.ext rfl ((finishes []).mpr ⟨gives, rfl⟩)⟩
  · exact (updated out gives).elim

theorem gives_of_update {more : Bytes} {f : Filter}
    (updated : (Filter.new kind).update fromUtf8 context content = (f, some out))
    (finished : (f.finalize fromUtf8 context).2 = some more) :
    Gives fromUtf8 context kind content out ∧ more = [] := by
  have both := update_finalize fromUtf8 context kind content
  rw [updated] at both
  exact (both.2 more).mp finished

variable {kinds : List Kind}

/-- Where both halves of `FilterStack::process` succeed each filter rendered what
    it was handed, and nothing is left to add. -/
theorem passes_of_process {buf : Bytes}
    {filters : List Filter} (updated : updateAll fromUtf8 context (kinds.map Filter.new) content =
    (filters, .ok (some out)))
    (finished : finalizeAll fromUtf8 context filters [] = .ok buf) :
    Passes fromUtf8 context kinds content out ∧ buf = [] := by
  induction kinds generalizing content filters with
  | nil =>
    cases updated
    cases finished
    exact ⟨rfl, rfl⟩
  | cons kind kinds ih =>
    simp only [List.map_cons, updateAll] at updated
    cases first : (Filter.new kind).update fromUtf8 context content with
    | mk f answer =>
      rw [first] at updated
      cases answer with
      | none => cases updated
      | some between =>
        cases rest : updateAll fromUtf8 context (kinds.map Filter.new) (some between) with
        | mk others restAnswer =>
          simp only [rest] at updated
          cases updated
          simp only [finalizeAll, ne_eq, not_true_eq_false, if_false] at finished
          cases ended : f.finalize fromUtf8 context with
          | mk g more =>
            rw [ended] at finished
            cases more with
            | none => cases finished
            | some more =>
              have last : (f.finalize fromUtf8 context).2 = some more := by rw [ended]
              obtain ⟨gives, rfl⟩ := gives_of_update first last
              obtain ⟨passes, empty⟩ := ih rest finished
              exact ⟨⟨between, gives, passes⟩, empty⟩

theorem process_of_passes
    (passes : Passes fromUtf8 context kinds content out) :
    ∃ filters, updateAll fromUtf8 context (kinds.map Filter.new) content =
      (filters, .ok (some out)) ∧ finalizeAll fromUtf8 context filters [] = .ok [] := by
  induction kinds generalizing content with
  | nil =>
    cases passes
    exact ⟨[], rfl, rfl⟩
  | cons kind kinds ih =>
    obtain ⟨between, gives, later⟩ := passes
    obtain ⟨f, updated, g, finished⟩ := update_of_gives gives
    obtain ⟨filters, others, last⟩ := ih later
    refine ⟨f :: filters, by simp only [List.map_cons, updateAll, updated, others], ?_⟩
    simpa [finalizeAll, finished] using last

theorem create_name (kind : Kind) : create kind.name = some kind := by
  cases kind <;> decide

theorem newFilters_names (kinds : List Kind) :
    newFilters (kinds.map Kind.name) = kinds.map Filter.new := by
  induction kinds with
  | nil => rfl
  | cons kind kinds ih =>
    simp only [newFilters, List.map_cons, List.filterMap_cons, create_name] at ih ⊢
    rw [ih]

theorem filterStackProcess_iff :
    filterStackProcess fromUtf8 (kinds.map Kind.name) context content = some out ↔
      Passes fromUtf8 context kinds content out := by
  rw [filterStackProcess, newFilters_names]
  constructor
  · intro processed
    split at processed
    · rename_i filters data updated
      cases finished : finalizeAll fromUtf8 context filters [] with
      | error e =>
        rw [finished] at processed
        cases processed
      | ok buf =>
        rw [finished] at processed
        obtain ⟨passes, rfl⟩ := passes_of_process updated finished
        have same := Option.some.inj processed
        rw [List.append_nil] at same
        exact same ▸ passes
    · cases processed
  · intro passes
    obtain ⟨filters, updated, finished⟩ := process_of_passes passes
    simp only [updated, finished, List.append_nil]

theorem start_of_gives
    (gives : Gives fromUtf8 context kind content out) :
    (Filter.new kind).start fromUtf8 context content = ⟨some (sendAction context kind), some out,
    none⟩ := by
  obtain ⟨f, updated, g, finished⟩ := update_of_gives gives
  cases kind with
  | skipSelf => cases gives; rfl
  | skipUsers => cases gives; rfl
  | requireSub => cases gives; rfl
  | buildId => simp only [Filter.start, Filter.new, Filter.process] at *; simp [updated, finished]
  | varSubst => simp only [Filter.start, Filter.new, Filter.process] at *; simp [updated, finished]

theorem start_shape (fromUtf8 : Bytes → String) (context : Context) (kind : Kind)
    (content : Option Bytes) :
    ∃ after, (Filter.new kind).start fromUtf8 context content =
      ⟨some (sendAction context kind), after, none⟩ := by
  cases kind <;> exact ⟨_, rfl⟩

theorem runFilters_sends (fromUtf8 : Bytes → String) (content : Option Bytes)
    (sends : ∀ kind ∈ kinds, sendAction context kind = .send) :
    ∃ after, runFilters fromUtf8 context (kinds.map Filter.new) content .send = ⟨some .send, after,
      none⟩ ∧ ∀ out, Passes fromUtf8 context kinds content out → after = some out := by
  induction kinds generalizing content with
  | nil => exact ⟨content, rfl, fun out passes => passes⟩
  | cons kind kinds ih =>
    obtain ⟨next, started⟩ := start_shape fromUtf8 context kind content
    obtain ⟨after, ran, last⟩ := ih next fun k mem => sends k (List.mem_cons_of_mem kind mem)
    refine ⟨after, ?_, ?_⟩
    · simp only [List.map_cons, runFilters, started, sends kind List.mem_cons_self, ran]
    · rintro out ⟨between, gives, passes⟩
      rw [start_of_gives gives] at started
      cases started
      exact last out passes

theorem runFilters_drops (fromUtf8 : Bytes → String) (content : Option Bytes)
    (last : SendAction) (listed : kind ∈ kinds) (drops : sendAction context kind = .drop) :
    ∃ after, runFilters fromUtf8 context (kinds.map Filter.new) content last =
      ⟨some .drop, after, none⟩ := by
  induction kinds generalizing content last with
  | nil => cases listed
  | cons first kinds ih =>
    obtain ⟨next, started⟩ := start_shape fromUtf8 context first content
    cases action : sendAction context first with
    | drop => exact ⟨next, by simp only [List.map_cons, runFilters, started, action]⟩
    | send =>
      rcases List.mem_cons.mp listed with rfl | later
      · rw [action] at drops
        cases drops
      · obtain ⟨after, ran⟩ := ih next .send later
        exact ⟨after, by simp only [List.map_cons, runFilters, started, action, ran]⟩

variable (fromUtf8)

/-- The two stacks agree: without a filter that drops the message the one ends
    with an error exactly if the other fails, and else sends what the other gives; with
    a filter that drops it, and none before that fails, the message is dropped. -/
def StacksAgree (kinds : List Kind) (context : Context) (content : Option Bytes) : Prop :=
  ∃ result, messageFilterStack fromUtf8 (kinds.map Kind.name) context content = some result ∧
    ((∀ kind ∈ kinds, sendAction context kind ≠ .drop) →
      (result.errorMessage ≠ none ↔
        filterStackProcess fromUtf8 (kinds.map Kind.name) context content = none) ∧
      (∀ out, filterStackProcess fromUtf8 (kinds.map Kind.name) context content = some out →
        result = ⟨some .send, some out, none⟩)) ∧
    (∀ front kind back, kinds = front ++ kind :: back → sendAction context kind = .drop →
      filterStackProcess fromUtf8 (front.map Kind.name) context content ≠ none →
      result.sendAction = some .drop ∧ result.errorMessage = none)

/-- The stacks agree exactly if the message is dropped, or every filter renders
    what it is handed: the error of a filter that does not is lost. -/
theorem stacks_agree_iff (kinds : List Kind) (few : kinds.length ≤ messageFilterStackSizeMax)
    (context : Context) (content : Option Bytes) :
    StacksAgree fromUtf8 kinds context content ↔
      (∃ kind ∈ kinds, sendAction context kind = .drop) ∨
      ∃ out, Passes fromUtf8 context kinds content out := by
  have made : messageFilterStack fromUtf8 (kinds.map Kind.name) context content =
      some (runFilters fromUtf8 context (kinds.map Filter.new) content .send) := by
    rw [messageFilterStack, if_pos (by rw [List.length_map]; exact few), newFilters_names]
  simp only [StacksAgree, made, Option.some.injEq, exists_eq_left']
  by_cases drops : ∃ kind ∈ kinds, sendAction context kind = .drop
  · refine ⟨fun _ => Or.inl drops, fun _ => ⟨?_, ?_⟩⟩
    · intro noDrop
      obtain ⟨kind, mem, drop⟩ := drops
      exact (noDrop kind mem drop).elim
    · rintro front kind back rfl drop _
      have listed : kind ∈ front ++ kind :: back := List.mem_append_right front List.mem_cons_self
      obtain ⟨after, ran⟩ := runFilters_drops fromUtf8 content .send listed drop
      rw [ran]
      exact ⟨rfl, rfl⟩
  · have sends : ∀ kind ∈ kinds, sendAction context kind = .send := by
      intro kind mem
      cases action : sendAction context kind with
      | send => rfl
      | drop => exact (drops ⟨kind, mem, action⟩).elim
    obtain ⟨after, ran, gives⟩ := runFilters_sends fromUtf8 content sends
    rw [ran]
    constructor
    · rintro ⟨same, _⟩
      refine Or.inr ?_
      obtain ⟨errors, _⟩ := same fun kind mem drop => drops ⟨kind, mem, drop⟩
      cases processed : filterStackProcess fromUtf8 (kinds.map Kind.name) context content with
      | none => exact (errors.mpr processed rfl).elim
      | some out => exact ⟨out, filterStackProcess_iff.mp processed⟩
    · rintro (drop | ⟨out, passes⟩)
      · exact (drops drop).elim
      · have processed := filterStackProcess_iff.mpr passes
        refine ⟨fun _ => ⟨?_, ?_⟩, ?_⟩
        · rw [processed]
          simp
        · intro other same
          rw [processed] at same
          cases same
          rw [gives out passes]
        · rintro front kind back rfl drop _
          exact (drops ⟨kind, List.mem_append_right front List.mem_cons_self, drop⟩).elim

end

def userContext (user : String) : Context :=
  ⟨OrderedMap.empty, OrderedMap.empty.insert "user" (some user), OrderedMap.empty⟩

def latin1 (bytes : Bytes) : String := String.ofList (bytes.map fun b => Char.ofNat b.toNat)

/-- A variable that the subscription does not have: the one stack fails, the other
    sends the message with null content. -/
theorem unknown_variable_is_sent_empty : ¬ StacksAgree latin1 [.varSubst] (userContext "a")
    (some (toUtf8 "%(b)s")) := by
  rintro ⟨result, made, same, _⟩
  have sent : messageFilterStack latin1 ([Kind.varSubst].map Kind.name) (userContext "a")
      (some (toUtf8 "%(b)s")) = some ⟨some .send, none, none⟩ := by decide +kernel
  have failed : filterStackProcess latin1 ([Kind.varSubst].map Kind.name) (userContext "a")
      (some (toUtf8 "%(b)s")) = none := by decide +kernel
  rw [sent] at made
  cases made
  have noDrop : ∀ kind ∈ [Kind.varSubst], sendAction (userContext "a") kind ≠ .drop := by
    decide +kernel
  exact (same noDrop).1.mpr failed rfl

theorem known_variable_agrees : StacksAgree latin1 [.skipSelf, .varSubst] (userContext "a")
    (some (toUtf8 "hi %(user)s")) := by
  have few : [Kind.skipSelf, Kind.varSubst].length ≤ messageFilterStackSizeMax := by decide
  refine (stacks_agree_iff latin1 _ few _ _).mpr (Or.inr ⟨toUtf8 "hi a", ?_⟩)
  refine filterStackProcess_iff.mp ?_
  decide +kernel

end PushpinFilters
