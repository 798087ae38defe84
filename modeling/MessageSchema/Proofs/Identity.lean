import MessageSchema.Proofs.Resolution

/-!
# Identities that belong to a document

Whoever meets an identity with the name of a document looks it up among the
declarations of that document. For the references of a resolved document this is
right as long as an identity with the document's name was made from the document
itself. A search through imports never enters a document of that name. A
qualified reference does: it takes the identity from the document that is
supplied under the qualifier, whatever that document is called. So a reference is
safe exactly if its qualifier does not lead to another document of the same name,
or what that document declares happens to stand at the same place.
-/

namespace MessageSchema

namespace Document

/-- An identity of a declaration of the document, of its kind and of a name. -/
def Denotes (d : Document) (id : DeclId) (name : String) : Prop :=
  ∃ declaration, d.declaration? id = some declaration ∧ declaration.kind? = some id.kind
    ∧ declaration.name = name

/-- A reference that, if it has an identity with the name of the document, has one
of a declaration of the document that is named like it. -/
def Honours (d : Document) (t : TypeRef) : Prop :=
  ∀ id, t.resolution = .declaration id → id.document = d.name → d.Denotes id t.baseName

/-- A reference whose qualifier leads to no document of the same name, unless what
it finds there stands at the same place in this document. -/
def Matches (d : Document) (imports : Imports) (t : TypeRef) : Prop :=
  ∀ qualifier stored id, t.qualifier? = some qualifier → qualifier ∈ d.importOrder →
    imports.get? qualifier = some stored → stored.name = d.name → stored.Declares t.baseName id →
    d.Denotes id t.baseName

end Document

namespace Scope

variable {d : Document} {imports : Imports} {config : Config}

/-- The imports of a resolved document are searched in the same order as before. -/
theorem importOrder_resolveDocument (scope : Scope) (d : Document) :
    (scope.resolveDocument d).importOrder = d.importOrder := by
  rw [Document.importOrder, importNames_resolveDocument, Document.importOrder]

/-- What a document declares it still declares once it is resolved. -/
theorem denotes_resolveDocument (scope : Scope) {name : String} {id : DeclId}
    (declares : d.Declares name id) : (scope.resolveDocument d).Denotes id name := by
  obtain ⟨declaration, there, kind, named⟩ := declares.place
  refine ⟨scope.resolveDeclaration (scope.usedImports d) declaration, ?_, ?_, ?_⟩
  · have own : id.document = (scope.resolveDocument d).name := declares.owner
    rw [Document.declaration?, if_pos own, resolveDocument, List.getElem?_map, there]
    rfl
  · rw [← kind]
    cases declaration <;> rfl
  · rw [← named]
    cases declaration <;> rfl

/-- An identity with the name of the document comes from the document, or from
one of that name that the qualifier leads to. -/
theorem origin_of_own_identity {t : TypeRef} {id : DeclId}
    (resolved : ((ofDocument d imports config).lookup t).resolution = .declaration id)
    (own : id.document = d.name) :
    d.Declares t.baseName id
      ∨ ∃ qualifier stored, t.qualifier? = some qualifier ∧ qualifier ∈ d.importOrder
        ∧ imports.get? qualifier = some stored ∧ stored.name = d.name
        ∧ stored.Declares t.baseName id := by
  have stands : StandsFor d imports config t.raw (.declaration id) := resolved ▸ lookup_standsFor t
  generalize written : t.raw = text at stands
  cases stands with
  | qualified last imported supplied declares =>
    obtain ⟨qualified, rfl⟩ := TypeRef.parts_of_raw written last
    exact .inr ⟨_, _, qualified, imported, supplied, declares.owner.symm.trans own, declares⟩
  | own plain given declares =>
    subst written
    exact .inl (TypeRef.baseName_of_plain plain ▸ declares)
  | imported plain undeclared notBuiltin split passed found =>
    -- the search has left out every document of this name
    obtain ⟨key, e, opens, declares⟩ :=
      Imports.exists_opens_of_findThrough? (Imports.finds_iff.mp found)
    exact absurd (declares.owner.symm.trans own) opens.other

end Scope

/-- In an analysed document an identity with the document's own name denotes a
declaration of the document exactly if the qualifier of the reference, where it
leads to a document of that name, leads to the same declaration. References
without a qualifier are always safe.

Proof: a reference to an identity of the own document was found among its own types, or through
a qualifier that leads to a document of the same name. In the first case the identity denotes
what it should; in the second it does exactly if the condition holds for this qualifier. -/
theorem own_identity_denotes_iff (source name : String) (imports : Imports) (config : Config) :
    ∀ t ∈ (analyze source name imports config).document.typeRefs,
      (analyze source name imports config).document.Honours t
        ↔ (analyze source name imports config).document.Matches imports t := by
  intro t member
  let d := (parseSource source).tree.toDocument name
  let scope := Scope.ofDocument d imports config
  have order : (scope.resolveDocument d).importOrder = d.importOrder :=
    scope.importOrder_resolveDocument d
  have mapped : (scope.resolveDocument d).typeRefs = d.typeRefs.map scope.resolveRef :=
    scope.typeRefs_resolveDocument d
  obtain ⟨u, -, rfl⟩ := List.mem_map.mp (mapped ▸ member)
  constructor
  · intro honours qualifier stored id qualified imported supplied same declares
    obtain ⟨raw, last⟩ := TypeRef.raw_of_qualifier? (t := u) qualified
    have stands : StandsFor d imports config u.raw (.declaration id) :=
      raw ▸ .qualified last (order ▸ imported) supplied declares
    exact honours id (Scope.lookup_of_standsFor stands) (declares.owner.trans same)
  · intro safe id resolved own
    rcases Scope.origin_of_own_identity (d := d) resolved own with
      declares | ⟨qualifier, stored, qualified, imported, supplied, same, declares⟩
    · exact scope.denotes_resolveDocument declares
    · exact safe qualifier stored id qualified (order ▸ imported) supplied same declares

/-- The reference to the own message is honoured, since it has no qualifier. -/
theorem sampleSource_honoured :
    ∃ t ∈ (analyze sampleSource "main" sampleImports .standard).document.typeRefs,
      t.resolution = .declaration ⟨"main", 1, .message⟩
        ∧ (analyze sampleSource "main" sampleImports .standard).document.Honours t := by
  have present : ∃ t ∈ (analyze sampleSource "main" sampleImports .standard).document.typeRefs,
      t.resolution = .declaration ⟨"main", 1, .message⟩ ∧ t.qualifier? = none := by decide +kernel
  obtain ⟨t, member, resolved, plain⟩ := present
  refine ⟨t, member, resolved, ?_⟩
  apply (own_identity_denotes_iff sampleSource "main" sampleImports .standard t member).mpr
  intro qualifier stored id qualified
  exact nomatch plain.symm.trans qualified

/-- A source that refers to itself, as an earlier version of it was supplied. -/
def staleSource : String :=
  "import main;\nmessage A \x7b field x: main.B = 1; \x7d"

/-- The earlier version. -/
def staleImports : Imports :=
  Imports.empty.insert "main"
    (analyze "enum Z \x7b \x7d\nmessage B \x7b \x7d" "main" .empty .standard).document

/-- The reference to the earlier version gets the identity of another message. -/
theorem stale_identity_misleads :
    ¬ ∀ t ∈ (analyze staleSource "main" staleImports .standard).document.typeRefs,
      (analyze staleSource "main" staleImports .standard).document.Honours t := by
  intro honours
  have resolved : ∃ t ∈ (analyze staleSource "main" staleImports .standard).document.typeRefs,
      t.resolution = .declaration ⟨"main", 1, .message⟩ ∧ t.baseName = "B" := by decide +kernel
  have there : ((analyze staleSource "main" staleImports .standard).document.declaration?
      ⟨"main", 1, .message⟩).map (·.name) = some "A" := by decide +kernel
  obtain ⟨t, member, stands, named⟩ := resolved
  obtain ⟨declaration, found, -, same⟩ := honours t member _ stands rfl
  rw [found, Option.map_some, same, named] at there
  exact absurd there (by decide)

end MessageSchema
