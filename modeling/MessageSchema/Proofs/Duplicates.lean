import Mathlib.Data.List.Forall2
import MessageSchema.Analysis
import MessageSchema.Proofs.Checks

/-!
# What the checks for duplicates find

Names, tags and values are to be unique, each in its own scope: the names of types in the
document, the names of imports among the imports, names and tags of fields in their
message, names and values of variants in their enum. The checks go through the members of
a scope and remember who had which key first. A name that is missing, a tag or value that
is not there, is no key.

The checks are exact. A member is found if and only if an earlier member of the scope has
its key. It is found once, at its own place, in the order of the scope; and what is said of
a tag or a value names the first member that has it, however many there were in between.

A document that is imported again is only doubtful. All other duplicates are errors, so
the checks find no error exactly if everything else is unique, and they find nothing at
all exactly if the imports are unique too.
-/

namespace MessageSchema

/-! ## Errors that depend on a condition -/

/-- Findings that are all errors, and there are none exactly if a condition holds. -/
structure ErrorsUnless (sound : Prop) (ds : List Diagnostic) : Prop where
  errors : ∀ x ∈ ds, x.isError = true
  none_iff : ds = [] ↔ sound

/-- Findings that are errors unless a condition holds contain no error exactly if it holds. -/
theorem ErrorsUnless.quiet_iff {sound : Prop} {ds : List Diagnostic}
    (told : ErrorsUnless sound ds) : Quiet ds ↔ sound :=
  (quiet_iff_nil told.errors).trans told.none_iff

/-! ## Members that repeat a key -/

section Repeats

variable {α κ : Type}

/-- The member at a place has a key that a member before it has too. -/
def RepeatsAt (key? : α → Option κ) (members : List α) (i : Nat) : Prop :=
  ∃ again k, members[i]? = some again ∧ key? again = some k
    ∧ ∃ earlier ∈ members.take i, key? earlier = some k

/-- The member at a place has a key, and `first` is the first member that has it, before
this place. -/
structure FirstUse (key? : α → Option κ) (members : List α) (i : Nat) (again first : α) :
    Prop where
  here : members[i]? = some again
  before : ∃ k front back, key? again = some k ∧ key? first = some k
    ∧ members.take i = front ++ first :: back ∧ ∀ x ∈ front, key? x ≠ some k

/-- Findings about the members of a list that repeat a key. There is one for each place
with such a member, in the order of the places, and it is one that `tells` allows for
this member and the first one with its key. -/
def ReportsRepeats (key? : α → Option κ) (members : List α) (tells : α → α → Diagnostic → Prop)
    (ds : List Diagnostic) : Prop :=
  ∃ places : List Nat, places.Pairwise (· < ·)
    ∧ (∀ i, i ∈ places ↔ RepeatsAt key? members i)
    ∧ List.Forall₂ (fun i x => ∃ again first,
        FirstUse key? members i again first ∧ tells again first x) places ds

variable [DecidableEq κ] {key? : α → Option κ} {before rest : List α} {x first : α}

/-- One turn of the search: a member whose key an earlier one has is found with the first
of them. -/
theorem repeatsAfter_of_repeatsAt
    (again : RepeatsAt key? (before ++ x :: rest) before.length) :
    ∃ first, FirstUse key? (before ++ x :: rest) before.length x first
      ∧ repeatsAfter key? before (x :: rest)
        = (x, first) :: repeatsAfter key? (before ++ [x]) rest := by
  obtain ⟨_, k, here, key, earlier, member, same⟩ := again
  rw [List.getElem?_append_right (Nat.le_refl _), Nat.sub_self, List.getElem?_cons_zero] at here
  cases here
  rw [List.take_left] at member
  have present : (before.find? fun y => key? y = some k).isSome = true :=
    List.find?_isSome.mpr ⟨earlier, member, decide_eq_true same⟩
  obtain ⟨first, found⟩ := Option.isSome_iff_exists.mp present
  obtain ⟨has, front, back, split, others⟩ := List.find?_eq_some_iff_append.mp found
  refine ⟨first, ⟨by simp, k, front, back, key, of_decide_eq_true has, ?_, ?_⟩, ?_⟩
  · rw [List.take_left, split]
  · intro y among
    simpa using others y among
  · simp [repeatsAfter, key, found]

/-- The other turn: a member without a key, or with a new one, is passed over. -/
theorem repeatsAfter_of_not_repeatsAt
    (new : ¬ RepeatsAt key? (before ++ x :: rest) before.length) :
    repeatsAfter key? before (x :: rest) = repeatsAfter key? (before ++ [x]) rest := by
  cases key : key? x with
  | none => simp [repeatsAfter, key]
  | some k =>
    have absent : before.find? (fun y => key? y = some k) = none := by
      apply List.find?_eq_none.mpr
      intro y member same
      refine new ⟨x, k, by simp, key, y, ?_, of_decide_eq_true same⟩
      rwa [List.take_left]
    simp [repeatsAfter, key, absent]

/-- The search finds the members that repeat a key. The induction is on the members that
are left; those before them are the same list all along, cut one place further on. -/
theorem repeatsAfter_places (key? : α → Option κ) (before members : List α) :
    ∃ places : List Nat, places.Pairwise (· < ·)
      ∧ (∀ i, i ∈ places ↔ before.length ≤ i ∧ RepeatsAt key? (before ++ members) i)
      ∧ List.Forall₂ (fun i (pair : α × α) => FirstUse key? (before ++ members) i pair.1 pair.2)
        places (repeatsAfter key? before members) := by
  induction members generalizing before with
  | nil =>
    refine ⟨[], .nil, fun i => ?_, .nil⟩
    constructor
    · exact fun member => absurd member List.not_mem_nil
    · rintro ⟨behind, _, _, here, -⟩
      obtain ⟨inside, -⟩ := List.getElem?_eq_some_iff.mp here
      rw [List.append_nil] at inside
      omega
  | cons x rest ih =>
    obtain ⟨places, ascending, listed, told⟩ := ih (before ++ [x])
    rw [List.append_assoc, List.singleton_append] at listed told
    simp only [List.length_append, List.length_singleton] at listed
    have onward : ∀ i, before.length ≤ i ∧ RepeatsAt key? (before ++ x :: rest) i
        ↔ i = before.length ∧ RepeatsAt key? (before ++ x :: rest) i ∨ i ∈ places := by
      intro i
      rw [listed]
      constructor
      · rintro ⟨behind, repeated⟩
        rcases Nat.eq_or_lt_of_le behind with same | later
        · exact .inl ⟨same.symm, repeated⟩
        · exact .inr ⟨later, repeated⟩
      · rintro (⟨rfl, repeated⟩ | ⟨later, repeated⟩)
        · exact ⟨Nat.le_refl _, repeated⟩
        · exact ⟨Nat.le_of_succ_le later, repeated⟩
    by_cases again : RepeatsAt key? (before ++ x :: rest) before.length
    · obtain ⟨first, use, turn⟩ := repeatsAfter_of_repeatsAt again
      refine ⟨before.length :: places, ?_, fun i => ?_, turn ▸ .cons use told⟩
      · refine List.pairwise_cons.mpr ⟨fun i member => ?_, ascending⟩
        exact ((listed i).mp member).1
      · rw [onward, List.mem_cons]
        exact or_congr_left ⟨fun same => ⟨same, same ▸ again⟩, And.left⟩
    · refine ⟨places, ascending, fun i => ?_, repeatsAfter_of_not_repeatsAt again ▸ told⟩
      rw [onward]
      exact ⟨.inr, fun either => either.resolve_left fun here => again (here.1 ▸ here.2)⟩

/-- What the search finds are the members at the places where a key repeats, in the order of the
places, and each with the first member that has its key. -/
theorem repeats_places (key? : α → Option κ) (members : List α) :
    ∃ places : List Nat, places.Pairwise (· < ·)
      ∧ (∀ i, i ∈ places ↔ RepeatsAt key? members i)
      ∧ List.Forall₂ (fun i (pair : α × α) => FirstUse key? members i pair.1 pair.2) places
        (repeats key? members) := by
  simpa [repeats] using repeatsAfter_places key? [] members

/-- What is reported of the members that the search finds, if something is reported of
every member with a key. -/
theorem reportsRepeats_filterMap {tells : α → α → Diagnostic → Prop}
    {report : α × α → Option Diagnostic}
    (each : ∀ again first, (key? again).isSome = true →
      ∃ x, report (again, first) = some x ∧ tells again first x) (members : List α) :
    ReportsRepeats key? members tells ((repeats key? members).filterMap report) := by
  obtain ⟨places, ascending, listed, told⟩ := repeats_places key? members
  refine ⟨places, ascending, listed, ?_⟩
  generalize repeats key? members = found at told ⊢
  clear ascending listed
  induction told with
  | nil => exact .nil
  | @cons i pair places pairs use _ ih =>
    obtain ⟨k, _, _, key, -⟩ := use.before
    obtain ⟨x, reported, allowed⟩ := each pair.1 pair.2 (Option.isSome_iff_exists.mpr ⟨k, key⟩)
    rw [List.filterMap_cons_some reported]
    exact .cons ⟨pair.1, pair.2, use, allowed⟩ ih

/-- No member repeats a key exactly if the keys are unique. -/
theorem forall_not_repeatsAt_iff (key? : α → Option κ) (members : List α) :
    (∀ i, ¬ RepeatsAt key? members i) ↔ (members.filterMap key?).Nodup := by
  obtain ⟨places, -, listed, told⟩ := repeats_places key? members
  rw [← repeats_eq_nil_iff]
  simp only [← listed, ← List.eq_nil_iff_forall_not_mem]
  constructor
  · rintro rfl
    exact List.forall₂_nil_left_iff.mp told
  · intro none_found
    rw [none_found] at told
    exact List.forall₂_nil_right_iff.mp told

namespace ReportsRepeats

variable {members : List α} {tells : α → α → Diagnostic → Prop} {ds : List Diagnostic}

/-- Nothing is reported exactly if all keys that there are differ. An empty list of places is
the same as an empty list of reports. -/
theorem eq_nil_iff (reports : ReportsRepeats key? members tells ds) :
    ds = [] ↔ (members.filterMap key?).Nodup := by
  obtain ⟨places, -, listed, told⟩ := reports
  rw [← forall_not_repeatsAt_iff]
  simp only [← listed, ← List.eq_nil_iff_forall_not_mem]
  constructor
  · rintro rfl
    exact List.forall₂_nil_right_iff.mp told
  · rintro rfl
    exact List.forall₂_nil_left_iff.mp told

omit [DecidableEq κ] in
/-- What holds of everything that may be told holds of every finding. -/
theorem forall_mem {p : Diagnostic → Prop} (reports : ReportsRepeats key? members tells ds)
    (all : ∀ again first x, tells again first x → p x) : ∀ x ∈ ds, p x := by
  obtain ⟨places, ascending, listed, told⟩ := reports
  clear ascending listed
  induction told with
  | nil => exact List.forall_mem_nil _
  | cons here _ ih =>
    obtain ⟨again, first, -, allowed⟩ := here
    exact List.forall_mem_cons.mpr ⟨all again first _ allowed, ih⟩

/-- If what is reported of a repetition is an error, there are errors unless all keys differ. -/
theorem errorsUnless (reports : ReportsRepeats key? members tells ds)
    (errors : ∀ again first x, tells again first x → x.isError = true) :
    ErrorsUnless (members.filterMap key?).Nodup ds :=
  ⟨reports.forall_mem errors, reports.eq_nil_iff⟩

end ReportsRepeats

end Repeats

/-! ## Names -/

section Names

variable {α : Type}

/-- Findings about the members of a list that are named like an earlier one. Each stands
at the name; what it says is made from the member. -/
def ReportsNames (name : α → String) (nameSpan : α → Span) (members : List α)
    (problem : α → Problem) (ds : List Diagnostic) : Prop :=
  ReportsRepeats (nameKey? <| name ·) members
    (fun again _ x => x = ⟨problem again, nameSpan again⟩) ds

/-- A check that makes one finding for each repeated name, at that name, reports the names. -/
theorem reportsNames_map (name : α → String) (nameSpan : α → Span) (members : List α)
    (problem : α → Problem) :
    ReportsNames name nameSpan members problem
      ((repeats (nameKey? <| name ·) members).map fun (again, _) =>
        ⟨problem again, nameSpan again⟩) := by
  rw [← List.filterMap_eq_map']
  apply reportsRepeats_filterMap
  exact fun again first _ => ⟨_, rfl, rfl⟩

/-- The names of a list that are not missing are unique. -/
def NamesUnique (name : α → String) (members : List α) : Prop :=
  ((members.map name).filter (· ≠ "")).Nodup

/-- Names are unique exactly if the keys made from them differ: a missing name makes no key. -/
theorem namesUnique_iff (name : α → String) (members : List α) :
    NamesUnique name members ↔ (members.filterMap (nameKey? <| name ·)).Nodup := by
  have keys : members.filterMap (nameKey? <| name ·) = (members.map name).filter (· ≠ "") := by
    rw [← List.filterMap_eq_filter, List.filterMap_map]
    apply List.filterMap_congr
    intro x _
    by_cases missing : name x = "" <;> simp [nameKey?, Option.guard, missing]
  rw [keys, NamesUnique]

namespace ReportsNames

variable {name : α → String} {nameSpan : α → Span} {members : List α} {problem : α → Problem}
  {ds : List Diagnostic}

/-- What holds of the finding for every member holds of all findings. -/
theorem forall_mem {p : Diagnostic → Prop}
    (reports : ReportsNames name nameSpan members problem ds)
    (all : ∀ x, p ⟨problem x, nameSpan x⟩) : ∀ x ∈ ds, p x := by
  refine ReportsRepeats.forall_mem reports ?_
  rintro again first _ rfl
  exact all again

/-- No name is reported exactly if the names are unique. -/
theorem eq_nil_iff (reports : ReportsNames name nameSpan members problem ds) :
    ds = [] ↔ NamesUnique name members := by
  rw [namesUnique_iff]
  exact ReportsRepeats.eq_nil_iff reports

/-- If a repeated name is an error, there are errors unless the names are unique. -/
theorem errorsUnless (reports : ReportsNames name nameSpan members problem ds)
    (errors : ∀ x, (⟨problem x, nameSpan x⟩ : Diagnostic).isError = true) :
    ErrorsUnless (NamesUnique name members) ds :=
  ⟨reports.forall_mem errors, reports.eq_nil_iff⟩

end ReportsNames

end Names

/-! ## Scopes -/

/-- The findings about several scopes, one scope after the other. -/
def ReportsEach {σ : Type} (scopes : List σ) (reports : σ → List Diagnostic → Prop)
    (ds : List Diagnostic) : Prop :=
  ∃ parts, List.Forall₂ reports scopes parts ∧ ds = parts.flatten

section Scopes

variable {σ : Type} {scopes : List σ} {reports : σ → List Diagnostic → Prop} {ds : List Diagnostic}

/-- A check that goes through scopes and reports each of them reports them all, one after the
other. -/
theorem reportsEach_flatMap {found : σ → List Diagnostic} (each : ∀ s, reports s (found s)) :
    ReportsEach scopes reports (scopes.flatMap found) := by
  refine ⟨scopes.map found, ?_, List.flatMap_def⟩
  rw [List.forall₂_map_right_iff, List.forall₂_same]
  exact fun s _ => each s

/-- If each scope gives errors unless it is sound, all scopes together give errors unless each
is sound. By induction on the reports, one part for each scope. -/
theorem ReportsEach.errorsUnless {sound : σ → Prop} (told : ReportsEach scopes reports ds)
    (each : ∀ s part, reports s part → ErrorsUnless (sound s) part) :
    ErrorsUnless (∀ s ∈ scopes, sound s) ds := by
  obtain ⟨parts, together, rfl⟩ := told
  induction together with
  | nil => exact ⟨List.forall_mem_nil _, by simp⟩
  | cons said _ ih =>
    have first := each _ _ said
    constructor
    · rw [List.flatten_cons, List.forall_mem_append]
      exact ⟨first.errors, ih.errors⟩
    · rw [List.flatten_cons, List.append_eq_nil_iff, first.none_iff, ih.none_iff,
        List.forall_mem_cons]

end Scopes

/-! ## The checks -/

namespace Check

/-- Findings about the fields of a message that have the tag of an earlier one, each at
the field. -/
def ReportsTags (m : Message) (ds : List Diagnostic) : Prop :=
  ReportsRepeats (·.tag) m.fields (fun again first x => ∃ tag, again.tag = some tag
    ∧ x = ⟨.duplicateFieldTag m.name tag.toNat first.name, again.span⟩) ds

/-- Findings about the variants of an enum that have the value of an earlier one, each at
the value. -/
def ReportsValues (e : Enum) (ds : List Diagnostic) : Prop :=
  ReportsRepeats placedValue? e.variants (fun again first x => ∃ value span,
    again.value = some value ∧ again.valueSpan = some span
      ∧ x = ⟨.duplicateEnumValue e.name value.toInt first.name, span⟩) ds

/-- The check of tags reports the tags of a message: every field that has a tag and repeats it
gives one finding. -/
theorem reportsTags_filterMap (m : Message) :
    ReportsTags m ((repeats (·.tag) m.fields).filterMap fun (again, first) =>
      tagReused m again first) := by
  apply reportsRepeats_filterMap
  intro again first present
  obtain ⟨tag, given⟩ := Option.isSome_iff_exists.mp present
  exact ⟨_, tagReused_of_tag given, tag, given, rfl⟩

/-- The check of values reports the values of an enum. A value is a key only if its place is
known, so there is a place to report it at. -/
theorem reportsValues_filterMap (e : Enum) :
    ReportsValues e ((repeats placedValue? e.variants).filterMap fun (again, first) =>
      valueReused e again first) := by
  apply reportsRepeats_filterMap
  intro again first present
  obtain ⟨value, placed⟩ := Option.isSome_iff_exists.mp present
  obtain ⟨given, span, place⟩ := placedValue?_eq_some_iff.mp placed
  exact ⟨_, valueReused_of_placed given place, value, span, given, place, rfl⟩

/-- What each of the checks for duplicates finds. -/
structure DuplicatesExact (d : Document) : Prop where
  declarations : ∃ types imports, duplicateDeclarations d = types ++ imports
    ∧ ReportsNames Declaration.name Declaration.nameSpan
      (d.declarations.filter Declaration.isType) (.duplicateDeclaration ·.name) types
    ∧ ReportsNames Import.name Import.nameSpan d.imports (.duplicateImport ·.name) imports
  fieldNames : ReportsEach d.messages (fun m => ReportsNames Field.name Field.nameSpan m.fields
    (.duplicateFieldName m.name ·.name)) (duplicateFieldNames d)
  fieldTags : ReportsEach d.messages ReportsTags (duplicateFieldTags d)
  variantNames : ReportsEach d.enums (fun e => ReportsNames Variant.name Variant.nameSpan
    e.variants (.duplicateVariantName e.name ·.name)) (duplicateVariantNames d)
  values : ReportsEach d.enums ReportsValues (duplicateEnumValues d)

/-- The five checks for duplicates are exact together. -/
theorem duplicatesExact (d : Document) : DuplicatesExact d where
  declarations := ⟨_, _, rfl, reportsNames_map .., reportsNames_map ..⟩
  fieldNames := reportsEach_flatMap fun _ => reportsNames_map ..
  fieldTags := reportsEach_flatMap reportsTags_filterMap
  variantNames := reportsEach_flatMap fun _ => reportsNames_map ..
  values := reportsEach_flatMap reportsValues_filterMap

/-- All findings of the checks for duplicates. -/
def duplicates (d : Document) : List Diagnostic :=
  duplicateDeclarations d ++ duplicateFieldNames d ++ duplicateFieldTags d
    ++ duplicateVariantNames d ++ duplicateEnumValues d

end Check

/-! ## Uniqueness -/

/-- Types, fields and variants are told apart by their names, fields by their tags and
variants by their values. -/
@[mk_iff]
structure Document.Unambiguous (d : Document) : Prop where
  types : NamesUnique Declaration.name (d.declarations.filter Declaration.isType)
  fieldNames : ∀ m ∈ d.messages, NamesUnique Field.name m.fields
  fieldTags : ∀ m ∈ d.messages, (m.fields.filterMap (·.tag)).Nodup
  variantNames : ∀ e ∈ d.enums, NamesUnique Variant.name e.variants
  values : ∀ e ∈ d.enums, (e.variants.filterMap Check.placedValue?).Nodup

/-- The checks for duplicates find what they should and nothing else. So they find no error
exactly if everything but the imports is unique in its scope, and nothing at all exactly if
the imports are too.

Proof: each check reports exactly the repetitions in its scopes. Repeated imports are warnings
and all others are errors, which decides what is left of the sum when errors are counted and
when everything is. -/
theorem duplicate_checks_exact (d : Document) :
    Check.DuplicatesExact d
      ∧ (Quiet (Check.duplicates d) ↔ d.Unambiguous)
      ∧ (Check.duplicates d = [] ↔ d.Unambiguous ∧ NamesUnique Import.name d.imports) := by
  have all := Check.duplicatesExact d
  refine ⟨all, ?_⟩
  obtain ⟨types, imports, both, ofTypes, ofImports⟩ := all.declarations
  have typeNames := ofTypes.errorsUnless fun _ => rfl
  have importsQuiet : Quiet imports := ofImports.forall_mem fun _ => rfl
  have fieldNames := all.fieldNames.errorsUnless fun _ _ told => told.errorsUnless fun _ => rfl
  have fieldTags := all.fieldTags.errorsUnless fun _ _ told => by
    apply ReportsRepeats.errorsUnless told
    rintro again first _ ⟨tag, -, rfl⟩
    rfl
  have variantNames :=
    all.variantNames.errorsUnless fun _ _ told => told.errorsUnless fun _ => rfl
  have values := all.values.errorsUnless fun _ _ told => by
    apply ReportsRepeats.errorsUnless told
    rintro again first _ ⟨value, span, -, -, rfl⟩
    rfl
  rw [Check.duplicates, both, Document.unambiguous_iff]
  constructor
  · simp only [quiet_append, typeNames.quiet_iff, importsQuiet, fieldNames.quiet_iff,
      fieldTags.quiet_iff, variantNames.quiet_iff, values.quiet_iff, and_true, and_assoc]
  · simp only [List.append_eq_nil_iff, typeNames.none_iff, ofImports.eq_nil_iff,
      fieldNames.none_iff, fieldTags.none_iff, variantNames.none_iff, values.none_iff]
    tauto

/-- A source that imports a document twice. -/
def doubledSource : String :=
  "import a;\nimport a;\nmessage M \x7b field f: T = 1; \x7d"

/-- One supplied document, under the name that is imported twice. -/
def doubledImports : Imports :=
  Imports.empty.insert "a" (analyze "message T \x7b \x7d" "a" .empty .standard).document

/-- The checks find no error there, although the imports are not unique. -/
theorem repeated_import_no_error :
    let d := (analyze doubledSource "main" doubledImports .standard).document
    ¬ (Quiet (Check.duplicates d) ↔ d.Unambiguous ∧ NamesUnique Import.name d.imports) := by
  intro d equivalent
  have found : Check.duplicates d = [⟨.duplicateImport "a", ⟨17, 18, 2, 8⟩⟩] := by decide +kernel
  have quiet : Quiet (Check.duplicates d) := by
    rw [found]
    exact List.forall_mem_singleton.mpr rfl
  have names : d.imports.map Import.name = ["a", "a"] := by decide +kernel
  have unique := (equivalent.mp quiet).2
  rw [NamesUnique, names] at unique
  exact absurd unique (by decide)

end MessageSchema
