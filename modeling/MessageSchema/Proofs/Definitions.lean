import MessageSchema.Proofs.References
import MessageSchema.Proofs.Renewal

/-!
# Definitions of references

From a reference an editor goes to the declaration that the reference stands for. The two
directions are not made for each other. A reference is resolved by keys: the key in its
qualifier, or the keys that a search through the imports takes up. What is kept of the
document in which the declaration was found is its own name and the index of the
declaration. To go back, a document of that name is looked for, among all that are
supplied and whatever their keys are.

The way back ends where the way there did if names tell documents apart: no supplied
document has the name of the one that is analysed, and supplied documents of one name
are equal.
-/

namespace MessageSchema

namespace Imports

/-- Supplied documents that names tell apart, from one another and from the document
`home`. The same document may be supplied under several keys. -/
structure ToldByName (imports : Imports) (home : String) : Prop where
  foreign : ∀ key e, imports.get? key = some e → e.name ≠ home
  agree : ∀ key other e f, imports.get? key = some e → imports.get? other = some f →
    e.name = f.name → e = f

/-- The document in which a search through the import `key` ends: of the documents that
the search takes up, in their order, the first that declares the name. -/
structure FindsIn (imports : Imports) (home name key : String) (e : Document) (id : DeclId) :
    Prop where
  declares : e.Declares name id
  first : ∃ before last after,
    (imports.graphOutside home).reachedFrom [home] key = before ++ last :: after
      ∧ imports.Opens home last e
      ∧ ∀ earlier ∈ before, ∀ f, imports.Opens home earlier f → ∀ other, ¬ f.Declares name other

variable {imports : Imports} {home name key : String} {e : Document} {id : DeclId}

/-- A search that finds something ends in a document. -/
theorem exists_findsIn (found : imports.findThrough? home key name = some id) :
    ∃ e, imports.FindsIn home name key e id := by
  obtain ⟨before, last, after, walk, here, passed⟩ := List.findSome?_eq_some_iff.mp found
  obtain ⟨e, opens, declares⟩ := findTypeOutside?_eq_some_iff.mp here
  refine ⟨e, declares, before, last, after, walk, opens, ?_⟩
  intro earlier member f opened other declared
  have nothing := passed earlier member
  exact nomatch nothing.symm.trans (findTypeOutside?_eq_some_iff.mpr ⟨f, opened, declared⟩)

/-- A document that is found by its name is supplied and has the name. -/
theorem stored_of_findDocument? (found : imports.findDocument? name = some e) :
    (∃ key, imports.get? key = some e) ∧ e.name = name := by
  rcases Option.or_eq_some_iff.mp found with direct | ⟨-, searched⟩
  · obtain ⟨stored, named⟩ := Option.filter_eq_some_iff.mp direct
    exact ⟨⟨name, stored⟩, of_decide_eq_true named⟩
  · have named : e.name = name := by simpa using List.find?_some searched
    obtain ⟨⟨key, f⟩, entry, rfl⟩ := List.mem_map.mp (List.mem_of_find?_eq_some searched)
    exact ⟨⟨key, mem_entries_iff.mp entry⟩, named⟩

/-- Where names tell documents apart, a supplied document is found by its name. -/
theorem ToldByName.findDocument? (told : imports.ToldByName home)
    (stored : imports.get? key = some e) : imports.findDocument? e.name = some e := by
  cases found : imports.findDocument? e.name with
  | some f =>
    obtain ⟨⟨other, supplied⟩, named⟩ := stored_of_findDocument? found
    rw [told.agree other key f e supplied stored named]
  | none =>
    have nowhere := List.find?_eq_none.mp (Option.or_eq_none_iff.mp found).2
    have among : e ∈ imports.entries.map (·.2) :=
      List.mem_map.mpr ⟨(key, e), mem_entries_iff.mpr stored, rfl⟩
    exact absurd (decide_eq_true rfl) (nowhere e among)

end Imports

namespace Document

/-- The document in which a declaration was found for a reference of `d`: the one that is
supplied under the qualifier, or `d` itself, or the one in which the search through the
first import ends that leads to anything. -/
inductive FoundIn (d : Document) (imports : Imports) (config : Config) (t : TypeRef)
    (id : DeclId) : Document → Prop
  | qualified {qualifier : String} {owner : Document} (written : t.qualifier? = some qualifier)
      (imported : qualifier ∈ d.importOrder) (supplied : imports.get? qualifier = some owner)
      (declares : owner.Declares t.baseName id) : FoundIn d imports config t id owner
  | own (plain : t.qualifier? = none) (given : t.baseName ≠ "")
      (declares : d.Declares t.baseName id) : FoundIn d imports config t id d
  | searched {key : String} {before after : List String} {owner : Document}
      (plain : t.qualifier? = none)
      (undeclared : t.baseName ≠ "" → ∀ other, ¬ d.Declares t.baseName other)
      (notBuiltin : config.isBuiltin t.baseName = false)
      (order : d.importOrder = before ++ key :: after)
      (passed : ∀ earlier ∈ before, imports.Finds d.name t.baseName earlier none)
      (found : imports.FindsIn d.name t.baseName key owner id) : FoundIn d imports config t id owner

variable {d owner : Document} {imports : Imports} {config : Config} {t : TypeRef} {id : DeclId}

/-- By the rules, a declaration is found in some document. -/
theorem exists_foundIn (stands : StandsFor d imports config t.raw (.declaration id)) :
    ∃ owner, d.FoundIn imports config t id owner := by
  generalize written : t.raw = text at stands
  cases stands with
  | qualified last imported supplied declares =>
    obtain ⟨qualified, rfl⟩ := TypeRef.parts_of_raw written last
    exact ⟨_, .qualified qualified imported supplied declares⟩
  | own plain given declares =>
    subst written
    rw [← TypeRef.baseName_of_plain plain] at given declares
    exact ⟨d, .own (TypeRef.qualifier?_eq_none_iff.mpr plain) given declares⟩
  | imported plain undeclared notBuiltin order passed found =>
    subst written
    obtain ⟨owner, ends⟩ := Imports.exists_findsIn (Imports.finds_iff.mp found)
    have same := TypeRef.baseName_of_plain plain
    rw [← same] at undeclared notBuiltin passed ends
    exact ⟨owner, .searched (TypeRef.qualifier?_eq_none_iff.mpr plain) undeclared notBuiltin order
      passed ends⟩

namespace FoundIn

/-- The document in which a reference is found declares the name of the reference, whichever way
it was found. -/
theorem declares (found : d.FoundIn imports config t id owner) : owner.Declares t.baseName id := by
  cases found with
  | qualified written imported supplied declares => exact declares
  | own plain given declares => exact declares
  | searched plain undeclared notBuiltin order passed found => exact found.declares

/-- The document in which a reference is found is the one that is analysed or a supplied one. -/
theorem isKnown (found : d.FoundIn imports config t id owner) :
    owner = d ∨ ∃ key, imports.get? key = some owner := by
  cases found with
  | qualified written imported supplied declares => exact .inr ⟨_, supplied⟩
  | own plain given declares => exact .inl rfl
  | searched plain undeclared notBuiltin order passed found =>
    obtain ⟨-, last, -, -, opens, -⟩ := found.first
    exact .inr ⟨last, opens.stored⟩

/-- The way back ends in the document in which the declaration was found. -/
theorem ownerOf? (found : d.FoundIn imports config t id owner) (told : imports.ToldByName d.name) :
    d.ownerOf? imports id = some owner := by
  have named : id.document = owner.name := found.declares.owner
  rw [Document.ownerOf?, named]
  rcases found.isKnown with rfl | ⟨key, stored⟩
  · exact if_pos rfl
  · rw [if_neg (told.foreign key owner stored), told.findDocument? stored]

end FoundIn

/-- At a reference, the definition is the name of the declaration in the document in which
it was found. -/
theorem Laid.definitionAt?_of_foundIn {length offset : Nat} (laid : d.Laid length)
    (told : imports.ToldByName d.name) (member : t ∈ d.typeRefs)
    (stands : t.resolution = .declaration id) (here : t.span.containsOffset offset = true)
    (found : d.FoundIn imports config t id owner) {declaration : Declaration}
    (there : owner.declarations[id.index]? = some declaration) :
    d.definitionAt? imports offset = some ⟨owner.name, declaration.nameSpan⟩ := by
  have named : id.document = owner.name := found.declares.owner
  have declared : owner.declaration? id = some declaration := by
    rw [declaration?, if_pos named, there]
  rw [definitionAt?, laid.partAt?_of_typeRef member here]
  show d.declaredAt? imports offset = _
  rw [declaredAt?, laid.targetAt?_of_typeRef member stands here, Option.bind_some,
    found.ownerOf? told, Option.bind_some, declared, Option.map_some, named]

end Document

/-- The references of an analysed document stand for what the rules say. -/
theorem analyze_standsFor {source name : String} {imports : Imports} {config : Config}
    {t : TypeRef} (member : t ∈ (analyze source name imports config).document.typeRefs) :
    StandsFor (analyze source name imports config).document imports config t.raw t.resolution := by
  let d := (parseSource source).tree.toDocument name
  let scope := Scope.ofDocument d imports config
  have mapped : (scope.resolveDocument d).typeRefs = d.typeRefs.map scope.resolveRef :=
    scope.typeRefs_resolveDocument d
  obtain ⟨u, -, rfl⟩ := List.mem_map.mp (mapped ▸ member)
  have same : Scope.ofDocument (scope.resolveDocument d) imports config = scope :=
    scope.ofDocument_resolveDocument d imports config
  have stands : StandsFor (scope.resolveDocument d) imports config u.raw
      ((Scope.ofDocument (scope.resolveDocument d) imports config).lookup u).resolution :=
    Scope.lookup_standsFor u
  rw [same] at stands
  exact stands

/-- The definition of a reference is found wherever the reference was resolved to a
declaration: at every byte of the reference it is the name of the first message or enum of
that name in the document through which the reference was resolved.

Proof: the rules that gave the reference its meaning name the document in which it was found. As
names tell documents apart, looking for a document of that name comes back to it, and the
identity leads to the declaration there. -/
theorem definition_lands (source name : String) (imports : Imports) (config : Config)
    (told : imports.ToldByName name) :
    let d := (analyze source name imports config).document
    ∀ t ∈ d.typeRefs, ∀ id, t.resolution = .declaration id →
      ∃ owner declaration, d.FoundIn imports config t id owner
        ∧ (owner = d ∨ ∃ key, imports.get? key = some owner)
        ∧ owner.Declares t.baseName id ∧ owner.declarations[id.index]? = some declaration
        ∧ ∀ offset, t.span.containsOffset offset = true →
          d.definitionAt? imports offset = some ⟨owner.name, declaration.nameSpan⟩ := by
  intro d t member id stands
  have laid : d.Laid source.utf8ByteSize := analyze_laid source name imports config
  have rules : StandsFor d imports config t.raw t.resolution := analyze_standsFor member
  rw [stands] at rules
  obtain ⟨owner, found⟩ := Document.exists_foundIn rules
  obtain ⟨declaration, there, -, -⟩ := found.declares.place
  refine ⟨owner, declaration, found, found.isKnown, found.declares, there, fun offset here => ?_⟩
  exact laid.definitionAt?_of_foundIn told member stands here found there

/-- A library under two keys, neither of which is its name. It imports a further document,
which leads back to it. -/
def libraryImports : Imports :=
  let library :=
    (analyze "import deep;\nmessage T \x7b \x7d" "library" .empty .standard).document
  let depths :=
    (analyze "import lib;\nenum V \x7b \x7d\nenum U \x7b \x7d" "depths" .empty .standard).document
  ((Imports.empty.insert "lib" library).insert "books" library).insert "deep" depths

/-- References to the library, to what is behind it and to the message itself. -/
def bookSource : String :=
  "import lib;\nmessage M \x7b field t: lib.T = 1; field u: U = 2; field m: M = 3; \x7d"

/-- The reference `U` leads to a document that the source does not import itself, and in it
to the name of the enum `U`. -/
theorem bookSource_definition :
    let d := (analyze bookSource "main" libraryImports .standard).document
    libraryImports.ToldByName "main"
      ∧ ∃ t ∈ d.typeRefs, ∃ owner declaration,
        t.resolution = .declaration ⟨"depths", 2, .enum⟩
          ∧ d.FoundIn libraryImports .standard t ⟨"depths", 2, .enum⟩ owner
          ∧ owner.declarations[2]? = some declaration
          ∧ d.definitionAt? libraryImports 53 = some ⟨owner.name, declaration.nameSpan⟩
          ∧ d.definitionAt? libraryImports 53 = some ⟨"depths", ⟨28, 29, 3, 6⟩⟩ := by
  intro d
  have apart : (∀ entry ∈ libraryImports.entries, entry.2.name ≠ "main")
      ∧ ∀ first ∈ libraryImports.entries, ∀ second ∈ libraryImports.entries,
        first.2.name = second.2.name → first.2 = second.2 := by decide +kernel
  have told : libraryImports.ToldByName "main" := by
    constructor
    · intro key e stored
      exact apart.1 (key, e) (Imports.mem_entries_iff.mpr stored)
    · intro key other e f stored supplied
      exact apart.2 (key, e) (Imports.mem_entries_iff.mpr stored) (other, f)
        (Imports.mem_entries_iff.mpr supplied)
  have evaluated : (∃ t ∈ d.typeRefs, t.resolution = .declaration ⟨"depths", 2, .enum⟩
        ∧ t.span.containsOffset 53 = true)
      ∧ d.definitionAt? libraryImports 53 = some ⟨"depths", ⟨28, 29, 3, 6⟩⟩ := by decide +kernel
  obtain ⟨⟨t, member, stands, here⟩, location⟩ := evaluated
  obtain ⟨owner, declaration, found, -, -, there, lands⟩ :=
    definition_lands bookSource "main" libraryImports .standard told t member _ stands
  exact ⟨told, t, member, owner, declaration, stands, found, there, lands 53 here, location⟩

end MessageSchema
