import MessageSchema.Proofs.Apart
import MessageSchema.Proofs.Sorting

/-!
# Malformed imports

An import that is itself malformed may have lost a part of its name, so nothing should be
reported of it again. Resolution does not ask what is supplied under its name, though types
are still searched for through it, and the check for unknown and unused imports passes over
it. The check for duplicates does not: it looks at every import with a name. So it reports a
malformed one again, exactly if what is left of its name is the name of an import before it,
and then once.

The places of names are different in different declarations, so what is found at the name
of an import can only be about this import.
-/

namespace MessageSchema

/-! ## Repetitions at one member -/

section Repeats

variable {α κ : Type} [DecidableEq κ] {key? : α → Option κ}

/-- The search for repetitions goes through two lists one after the other, and in the second it
knows the members of the first. -/
theorem repeatsAfter_append (before first second : List α) :
    repeatsAfter key? before (first ++ second)
      = repeatsAfter key? before first ++ repeatsAfter key? (before ++ first) second := by
  induction first generalizing before with
  | nil => simp [repeatsAfter]
  | cons x rest ih =>
    have later := ih (before ++ [x])
    rw [List.append_assoc, List.singleton_append] at later
    simp only [List.cons_append, repeatsAfter, later]
    split
    · rfl
    · split <;> rfl

/-- Where no member has a property, none that repeats has it. -/
theorem filter_repeatsAfter_eq_nil {p : α → Bool} {before members : List α}
    (others : ∀ x ∈ members, p x = false) :
    ((repeatsAfter key? before members).map (·.1)).filter p = [] := by
  apply List.filter_eq_nil_iff.mpr
  intro x member
  obtain ⟨pair, repeated, rfl⟩ := List.mem_map.mp member
  rw [others _ (fst_mem_of_mem_repeatsAfter repeated)]
  exact Bool.false_ne_true

/-- Where only one member has a property, it is found to repeat a key if a member before it
has this key.

Proof: the members before and behind give nothing that has the property. So what remains is what
the search says of the one member, and it looks among those before it. -/
theorem filter_repeats {p : α → Bool} {before after : List α} {x : α} (own : p x = true)
    (others : ∀ y ∈ before ++ after, p y = false) :
    ((repeats key? (before ++ x :: after)).map (·.1)).filter p
      = if (key? x).isSome ∧ key? x ∈ before.map key? then [x] else [] := by
  rw [List.forall_mem_append] at others
  rw [repeats, repeatsAfter_append, List.map_append, List.filter_append,
    filter_repeatsAfter_eq_nil others.1, List.nil_append, List.nil_append, repeatsAfter]
  have later : ((repeatsAfter key? (before ++ [x]) after).map (·.1)).filter p = [] :=
    filter_repeatsAfter_eq_nil others.2
  cases key : key? x with
  | none => simpa [key] using later
  | some k =>
    cases found : before.find? (fun first => key? first = some k) with
    | none =>
      have absent : some k ∉ before.map key? := by
        intro member
        obtain ⟨y, among, same⟩ := List.mem_map.mp member
        have differs := List.find?_eq_none.mp found y among
        exact differs (decide_eq_true same)
      simpa [absent] using later
    | some first =>
      have same : key? first = some k := by simpa using List.find?_some found
      have present : some k ∈ before.map key? :=
        List.mem_map.mpr ⟨first, List.mem_of_find?_eq_some found, same⟩
      simpa [present, own] using later

end Repeats

/-- A name that is not missing is a key, the same one wherever it stands. -/
theorem nameKey?_isSome_and_mem {α : Type} (name : String) (named : α → String) (before : List α) :
    ((nameKey? name).isSome = true ∧ nameKey? name ∈ before.map (nameKey? <| named ·))
      ↔ name ≠ "" ∧ name ∈ before.map named := by
  by_cases missing : name = ""
  · simp [nameKey?, missing]
  · have same (other : String) : nameKey? other = some name ↔ other = name := by
      unfold nameKey?
      split
      · next empty => simp [empty, Ne.symm missing]
      · simp
    have key : nameKey? name = some name := (same name).mpr rfl
    simp [key, same, missing]

/-! ## Findings at the name of an import -/

/-- An import among the imports of a document, named at a place where nothing else is. -/
structure Document.Singled (d : Document) (before : List Import) (i : Import)
    (after : List Import) : Prop where
  split : d.imports = before ++ i :: after
  others : ∀ j ∈ before ++ after, j.nameSpan ≠ i.nameSpan
  types : ∀ s, d.InType s → s ≠ i.nameSpan

/-- Where the places inside declarations follow one another, every import is singled out.

Proof: the imports before and behind come from declarations before and behind, whose inner
places lie before and behind those of this one. So the place of its name is found in no other
declaration. -/
theorem Document.singled_of_before {d : Document} {before after : List Import} {i : Import}
    (ordered : d.declarations.Pairwise Declaration.Before)
    (split : d.imports = before ++ i :: after) :
    d.Singled before i after := by
  obtain ⟨front, rest, whole, early, imported⟩ := List.filterMap_eq_append_iff.mp split
  obtain ⟨between, own, back, rfl, none_between, found, late⟩ :=
    List.filterMap_eq_cons_iff.mp imported
  obtain rfl : own = .importing i := Declaration.import?_eq_some.mp found
  rw [← List.append_assoc] at whole
  rw [whole] at ordered
  obtain ⟨-, behind, across⟩ := List.pairwise_append.mp ordered
  have named : i.nameSpan ∈ (Declaration.importing i).innerPlaces := List.mem_cons_self
  have apart : ∀ declaration ∈ (front ++ between) ++ back, ∀ s ∈ declaration.innerPlaces,
      s ≠ i.nameSpan := by
    rintro declaration member s place rfl
    rcases List.mem_append.mp member with first | last
    · exact Nat.lt_irrefl _ (across declaration first _ List.mem_cons_self _ place _ named)
    · exact Nat.lt_irrefl _ ((List.pairwise_cons.mp behind).1 declaration last _ named _ place)
  refine ⟨split, ?_, ?_⟩
  · intro j member
    have declared : .importing j ∈ (front ++ between) ++ back := by
      rw [← early, ← late] at member
      simp only [List.mem_append, List.mem_filterMap, Declaration.import?_eq_some] at member ⊢
      rcases member with ⟨_, among, rfl⟩ | ⟨_, among, rfl⟩
      · exact .inl (.inl among)
      · exact .inr among
    exact apart _ declared _ (Declaration.importing j).nameSpan_mem
  · rintro s ⟨declaration, member, type, place⟩
    refine apart declaration ?_ s place
    rw [whole, List.mem_append, List.mem_cons] at member
    rcases member with first | rfl | last
    · exact List.mem_append_left _ first
    · cases type
    · exact List.mem_append_right _ last

namespace Document.Singled

variable {d : Document} {before after : List Import} {i : Import}

/-- Findings inside types are elsewhere. -/
theorem filter_inType (singled : d.Singled before i after) {found : List Diagnostic}
    (inside : ∀ x ∈ found, d.InType x.span) : found.filter (·.span = i.nameSpan) = [] := by
  apply List.filter_eq_nil_iff.mpr
  intro x member
  simpa using singled.types _ (inside x member)

/-- Another import of the document is named elsewhere. -/
theorem eq_of_nameSpan (singled : d.Singled before i after) {j : Import} (member : j ∈ d.imports)
    (same : j.nameSpan = i.nameSpan) : j = i := by
  rw [singled.split, List.mem_append, List.mem_cons] at member
  rcases member with first | rfl | last
  · exact absurd same (singled.others j (List.mem_append_left _ first))
  · rfl
  · exact absurd same (singled.others j (List.mem_append_right _ last))

/-- The check for duplicates finds an import named like one before it, malformed or not.

Proof: what is found of types lies inside types, which is elsewhere. Among the imports, only the
one has this place for its name, so the statement about one member applies. -/
theorem filter_duplicateDeclarations (singled : d.Singled before i after) :
    (Check.duplicateDeclarations d).filter (·.span = i.nameSpan)
      = if i.name ≠ "" ∧ i.name ∈ before.map (·.name)
        then [⟨.duplicateImport i.name, i.nameSpan⟩] else [] := by
  let typeFinding (e : Declaration) : Diagnostic := ⟨.duplicateDeclaration e.name, e.nameSpan⟩
  let finding (j : Import) : Diagnostic := ⟨.duplicateImport j.name, j.nameSpan⟩
  have types : ((repeats (nameKey? ·.name) (d.declarations.filter Declaration.isType)).map
      (typeFinding ∘ Prod.fst)).filter (·.span = i.nameSpan) = [] := by
    apply singled.filter_inType
    intro x found
    obtain ⟨pair, repeated, rfl⟩ := List.mem_map.mp found
    exact Check.repeatedTypes_inType repeated
  have repeated : ((repeats (nameKey? ·.name) (before ++ i :: after)).map (·.1)).filter
        (fun j : Import => j.nameSpan = i.nameSpan)
      = if (nameKey? i.name).isSome ∧ nameKey? i.name ∈ before.map (nameKey? ·.name)
        then [i] else [] :=
    filter_repeats (decide_eq_true rfl) fun j member => decide_eq_false (singled.others j member)
  rw [← singled.split] at repeated
  show (List.map (typeFinding ∘ Prod.fst) _ ++ List.map (finding ∘ Prod.fst) _).filter _ = _
  rw [List.filter_append, types, List.nil_append, ← List.map_map, List.filter_map]
  show List.map finding (List.filter (fun j => decide (j.nameSpan = i.nameSpan)) _) = _
  rw [repeated]
  simp only [nameKey?_isSome_and_mem]
  split <;> rfl

/-- The check for unknown and unused imports passes over a malformed one. -/
theorem filter_imports (singled : d.Singled before i after) (recovered : i.status = .recovered) :
    (Check.imports d).filter (·.span = i.nameSpan) = [] := by
  apply List.filter_eq_nil_iff.mpr
  intro x found
  obtain ⟨j, judged, place⟩ := Check.exists_judged_of_imports found
  obtain ⟨member, usable⟩ := List.mem_filter.mp judged
  rw [decide_eq_true_eq, place]
  intro same
  rw [singled.eq_of_nameSpan member same] at usable
  simp [recovered] at usable

/-- What validation finds at the name of a malformed import is one duplicate or nothing. Every
other check finds inside types only, or passes over such an import. -/
theorem filter_validationFindings (singled : d.Singled before i after)
    (recovered : i.status = .recovered) (config : Config) :
    (validationFindings config d).filter (·.span = i.nameSpan)
      = if i.name ≠ "" ∧ i.name ∈ before.map (·.name)
        then [⟨.duplicateImport i.name, i.nameSpan⟩] else [] := by
  simp only [validationFindings, Check.findingsOf, Check.all, List.flatMap_cons, List.flatMap_nil,
    List.append_nil, List.filter_append, singled.filter_duplicateDeclarations,
    singled.filter_inType fun x => Check.duplicateFieldNames_inType,
    singled.filter_inType fun x => Check.duplicateFieldTags_inType,
    singled.filter_inType fun x => Check.duplicateVariantNames_inType,
    singled.filter_inType fun x => Check.duplicateEnumValues_inType,
    singled.filter_inType fun x => Check.reservedIdentifiers_inType,
    singled.filter_inType fun x => Check.circularTypes_inType,
    singled.filter_imports recovered]

/-- Resolution passes over a malformed import. -/
theorem filter_findings (singled : d.Singled before i after) (recovered : i.status = .recovered)
    (scope : Scope) : (scope.findings d).filter (·.span = i.nameSpan) = [] := by
  rw [Scope.findings, List.filter_append, List.append_eq_nil_iff]
  constructor
  · apply List.filter_eq_nil_iff.mpr
    intro x found
    obtain ⟨j, cyclic, rfl⟩ := List.mem_map.mp found
    obtain ⟨member, leads⟩ := List.mem_filter.mp cyclic
    rw [decide_eq_true_eq]
    intro same
    rw [singled.eq_of_nameSpan member same] at leads
    simp [Scope.isCyclic, recovered] at leads
  · apply singled.filter_inType
    intro x found
    obtain ⟨t, unresolved, rfl⟩ := List.mem_map.mp found
    exact scope.unresolvedRefs_inType unresolved

end Document.Singled

/-! ## Analysed sources -/

/-- What is found at the name of a malformed import of an analysed source. Resolution finds
nothing there, and the checks find nothing but that an import before it has the same name.

Proof: names of different declarations stand at different places, so what is found at the place
of this name is about this import. Each check is then asked for its findings there; only the one
for duplicates has any to give. -/
theorem recovered_import_reports (source name : String) (imports : Imports) (config : Config)
    {before after : List Import} {i : Import}
    (split : (analyze source name imports config).document.imports = before ++ i :: after)
    (recovered : i.status = .recovered) :
    (resolve ((parseSource source).tree.toDocument name) imports config).diagnostics.filter
        (·.span = i.nameSpan) = []
      ∧ (validate config (analyze source name imports config).document).filter
          (·.span = i.nameSpan)
        = if i.name ≠ "" ∧ i.name ∈ before.map (·.name)
          then [⟨.duplicateImport i.name, i.nameSpan⟩] else [] := by
  let built := (parseSource source).tree.toDocument name
  let scope := Scope.ofDocument built imports config
  constructor
  · -- The import was malformed before it was resolved.
    have mapped : built.imports.map
        (fun i => { i with status := scope.importStatus (scope.usedImports built) i })
          = before ++ i :: after := (scope.imports_resolveDocument built).symm.trans split
    obtain ⟨front, rest, whole, -, later⟩ := List.map_eq_append_iff.mp mapped
    obtain ⟨own, back, rfl, same, -⟩ := List.map_eq_cons_iff.mp later
    have singled := Document.singled_of_before (toDocument_before source name) whole
    have malformed : own.status = .recovered := by
      rw [← same] at recovered
      by_contra sound
      simp only [Scope.importStatus, if_neg sound] at recovered
      split at recovered <;> cases recovered
    have place : own.nameSpan = i.nameSpan := by rw [← same]
    rw [Resolved.diagnostics, Diagnostic.filter_sorted, ← place]
    show Diagnostic.sorted ((scope.findings built).filter _) = []
    rw [singled.filter_findings malformed scope, Diagnostic.sorted_nil]
  · have singled := Document.singled_of_before (analyze_before source name imports config) split
    rw [validate, Diagnostic.filter_sorted, singled.filter_validationFindings recovered]
    split
    · exact Diagnostic.sorted_eq_self (List.pairwise_singleton _ _)
    · exact Diagnostic.sorted_nil

/-- A source whose second import breaks off behind the name of the first. -/
def cutSource : String :=
  "import a;\nimport a.;"

/-- The second import is malformed, and yet it is reported as a duplicate of the first. -/
theorem cutSource_reports :
    let document := (analyze cutSource "main" .empty .standard).document
    document.imports = [⟨"a", ⟨7, 8, 1, 8⟩, .missing, ⟨0, 9, 1, 1⟩⟩,
        ⟨"a", ⟨17, 18, 2, 8⟩, .recovered, ⟨10, 20, 2, 1⟩⟩]
      ∧ (validate .standard document).filter (·.span = ⟨17, 18, 2, 8⟩)
        = [⟨.duplicateImport "a", ⟨17, 18, 2, 8⟩⟩] := by
  intro document
  have written : document.imports = [⟨"a", ⟨7, 8, 1, 8⟩, .missing, ⟨0, 9, 1, 1⟩⟩,
      ⟨"a", ⟨17, 18, 2, 8⟩, .recovered, ⟨10, 20, 2, 1⟩⟩] := by decide +kernel
  have split : document.imports = [⟨"a", ⟨7, 8, 1, 8⟩, .missing, ⟨0, 9, 1, 1⟩⟩]
      ++ ⟨"a", ⟨17, 18, 2, 8⟩, .recovered, ⟨10, 20, 2, 1⟩⟩ :: [] := written
  exact ⟨written, (recovered_import_reports cutSource "main" .empty .standard split rfl).2⟩

/-- The malformed import is reported again. -/
theorem cut_import_reported_again :
    ¬ ∀ i ∈ (analyze cutSource "main" .empty .standard).document.imports, i.status = .recovered →
      ∀ x ∈ (resolve ((parseSource cutSource).tree.toDocument "main") .empty .standard).diagnostics
        ++ validate .standard (analyze cutSource "main" .empty .standard).document,
        x.span ≠ i.nameSpan := by
  intro silent
  let document := (analyze cutSource "main" .empty .standard).document
  have malformed : ⟨"a", ⟨17, 18, 2, 8⟩, .recovered, ⟨10, 20, 2, 1⟩⟩ ∈ document.imports := by
    decide +kernel
  have found : ⟨.duplicateImport "a", ⟨17, 18, 2, 8⟩⟩ ∈ Check.duplicateDeclarations document := by
    decide +kernel
  have told : ⟨.duplicateImport "a", ⟨17, 18, 2, 8⟩⟩ ∈ validate .standard document :=
    (Diagnostic.sorted_perm _).mem_iff.mpr (List.mem_flatMap.mpr ⟨_, List.mem_cons_self, found⟩)
  exact silent _ malformed rfl _ (List.mem_append_right _ told) rfl

end MessageSchema
