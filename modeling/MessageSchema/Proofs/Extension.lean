import MessageSchema.Proofs.Resolution

/-!
# Supplying more documents

A host supplies documents one after the other, and a document that was resolved against
few of them is resolved again against more. A new document can change what a name is
found to stand for: a search takes up keys in a fixed order, and a key that led nowhere
may now lead to a whole graph of documents, back into circles and to keys that would have
come later. What it cannot do is to hide anything. A search fails only if nothing that can
be reached declares the name, and everything that could be reached still can.

So a reference that was resolved stays resolved, though perhaps to another declaration,
and an import that was found stays found.
-/

namespace MessageSchema

namespace Imports

/-- Everything that `imports` supplies is supplied by `more` too, under the same key.
Under keys that are free in `imports`, `more` may supply anything. -/
def Extends (more imports : Imports) : Prop :=
  ∀ key e, imports.get? key = some e → more.get? key = some e

variable {imports more : Imports} {home key : String} {e : Document}

/-- A document under a key that was free is one more document, and nothing else has changed. -/
theorem extends_insert (free : imports.get? key = none) (e : Document) :
    (imports.insert key e).Extends imports := by
  intro other stored supplied
  have apart : key ≠ other := by
    rintro rfl
    exact nomatch free.symm.trans supplied
  show (imports.documents.insert key e)[other]? = some stored
  rw [Std.ExtTreeMap.getElem?_insert, if_neg (by simpa using apart)]
  exact supplied

/-- A key that opens a document opens it when there are more documents. -/
theorem Opens.of_extends (extended : more.Extends imports) (opens : imports.Opens home key e) :
    more.Opens home key e :=
  ⟨extended key e opens.stored, opens.other⟩

/-- What can be reached stays within reach. -/
theorem Reached.of_extends (extended : more.Extends imports) {keys : List String}
    (reached : imports.Reached home keys e) : more.Reached home keys e := by
  induction reached with
  | direct member foreign opens => exact .direct member foreign (opens.of_extends extended)
  | through _ member foreign opens ih =>
    exact .through ih member foreign (opens.of_extends extended)

end Imports

namespace Document

variable {d : Document} {imports more : Imports} {name : String}

/-- A qualified name that stands for a declaration stands for the same one when there are more
documents. It is looked up under one key, and what is supplied there remains. -/
theorem qualifiedType?_of_extends (extended : more.Extends imports) {qualifier : String}
    {id : DeclId} (found : d.qualifiedType? imports qualifier name = some id) :
    d.qualifiedType? more qualifier name = some id := by
  rw [qualifiedType?_eq_some_iff] at found ⊢
  obtain ⟨imported, stored, supplied, declares⟩ := found
  exact ⟨imported, stored, extended qualifier stored supplied, declares⟩

/-- A search that finds nothing found nothing before. -/
theorem importedType?_of_extends (extended : more.Extends imports)
    (nothing : d.importedType? more name = none) : d.importedType? imports name = none := by
  rw [importedType?_eq_none_iff] at nothing ⊢
  intro e reached
  exact nothing e (reached.of_extends extended)

end Document

namespace Scope

variable {d : Document} {imports more : Imports} {config : Config} {t : TypeRef}

/-- A reference that is left without a meaning had none before. The types of the document
itself and the builtin types do not depend on what is supplied. -/
theorem lookup_unresolved_of_extends (extended : more.Extends imports)
    (unresolved : ((ofDocument d more config).lookup t).resolution = .unresolved) :
    ((ofDocument d imports config).lookup t).resolution = .unresolved := by
  cases qualified : t.qualifier? with
  | some qualifier =>
    rw [resolution_lookup_of_qualifier qualified, Resolution.ofFound_eq_unresolved_iff]
      at unresolved ⊢
    apply Option.eq_none_iff_forall_ne_some.mpr
    intro id found
    exact nomatch unresolved.symm.trans (Document.qualifiedType?_of_extends extended found)
  | none =>
    have plain := TypeRef.qualifier?_eq_none_iff.mp qualified
    rw [resolution_lookup_of_plain plain] at unresolved ⊢
    have symbols : (ofDocument d more config).symbols = (ofDocument d imports config).symbols := rfl
    rw [symbols] at unresolved
    cases declared : (ofDocument d imports config).symbols.get? t.raw with
    | some id =>
      rw [declared] at unresolved
      exact nomatch unresolved
    | none =>
      rw [declared] at unresolved
      cases builtin : config.isBuiltin t.raw with
      | true => simp [builtin] at unresolved
      | false =>
        simp only [builtin, Bool.false_eq_true, if_false,
          Resolution.ofFound_eq_unresolved_iff] at unresolved ⊢
        exact Document.importedType?_of_extends extended unresolved

/-- An import is recorded as found exactly if it is sound and something is supplied under its
name. -/
theorem importStatus_found_iff {scope : Scope} {used : List String} {i : Import} :
    (∃ use, scope.importStatus used i = .found use)
      ↔ i.status ≠ .recovered ∧ ∃ e, scope.imports.get? i.name = some e := by
  rw [← Option.isSome_iff_exists]
  unfold importStatus
  split
  · next malformed => simp [malformed]
  · next trusted =>
    split
    · next supplied => simp [trusted, supplied]
    · next absent => simp [trusted, absent]

end Scope

/-- The same reference, resolved if it was resolved before. -/
structure TypeRef.KeptBy (t later : TypeRef) : Prop where
  same : later = { t with resolution := later.resolution }
  resolved : t.isResolved = true → later.isResolved = true

/-- The same import, found if it was found before. -/
structure Import.KeptBy (i later : Import) : Prop where
  same : later = { i with status := later.status }
  found : (∃ used, i.status = .found used) → ∃ used, later.status = .found used

/-- Supplying more documents never breaks a reference. If a document is resolved against
more documents, each of its references is resolved that was resolved before, and each of
its imports is found that was found before.

Proof: references and imports are compared one by one. A reference that is unresolved against
more documents was unresolved before, since nothing that could be reached is lost; and a
document that was supplied still is. -/
theorem more_documents_keep_references (d : Document) (config : Config) (imports more : Imports)
    (extended : more.Extends imports) :
    List.Forall₂ TypeRef.KeptBy (resolve d imports config).document.typeRefs
        (resolve d more config).document.typeRefs
      ∧ List.Forall₂ Import.KeptBy (resolve d imports config).document.imports
        (resolve d more config).document.imports := by
  let few := Scope.ofDocument d imports config
  let many := Scope.ofDocument d more config
  constructor
  · show List.Forall₂ TypeRef.KeptBy (few.resolveDocument d).typeRefs
      (many.resolveDocument d).typeRefs
    rw [few.typeRefs_resolveDocument, many.typeRefs_resolveDocument, List.forall₂_map_left_iff,
      List.forall₂_map_right_iff, List.forall₂_same]
    intro t _
    refine ⟨rfl, fun resolved => decide_eq_true fun unresolved => ?_⟩
    exact of_decide_eq_true resolved (Scope.lookup_unresolved_of_extends extended unresolved)
  · show List.Forall₂ Import.KeptBy (few.resolveDocument d).imports
      (many.resolveDocument d).imports
    rw [few.imports_resolveDocument, many.imports_resolveDocument, List.forall₂_map_left_iff,
      List.forall₂_map_right_iff, List.forall₂_same]
    intro i _
    refine ⟨rfl, fun found => ?_⟩
    obtain ⟨trusted, e, supplied⟩ := Scope.importStatus_found_iff.mp found
    exact Scope.importStatus_found_iff.mpr ⟨trusted, e, extended i.name e supplied⟩

/-- A source with a type that two of its imports may lead to. -/
def partedSource : String :=
  "import a;\nimport b;\nmessage M \x7b field t: T = 1; field u: b.T = 2; field v: Int = 3; \x7d"

/-- The first import leads to a key under which nothing is supplied yet. -/
def partedImports : Imports :=
  (Imports.empty.insert "a" (analyze "import c;" "a" .empty .standard).document).insert "b"
    (analyze "message T \x7b \x7d" "b" .empty .standard).document

/-- The document for that key declares the type, and it leads back in circles. -/
def partedLink : Document :=
  (analyze "import a;\nimport main;\nenum T \x7b \x7d" "c" .empty .standard).document

/-- The plain reference is now found through the first import, in the new document. -/
theorem partedSource_kept :
    let d := (parseSource partedSource).tree.toDocument "main"
    let more := partedImports.insert "c" partedLink
    more.Extends partedImports
      ∧ (resolve d partedImports .standard).document.typeRefs.map (·.resolution)
        = [.declaration ⟨"b", 0, .message⟩, .declaration ⟨"b", 0, .message⟩, .builtin]
      ∧ (resolve d more .standard).document.typeRefs.map (·.resolution)
        = [.declaration ⟨"c", 2, .enum⟩, .declaration ⟨"b", 0, .message⟩, .builtin]
      ∧ List.Forall₂ TypeRef.KeptBy (resolve d partedImports .standard).document.typeRefs
        (resolve d more .standard).document.typeRefs
      ∧ List.Forall₂ Import.KeptBy (resolve d partedImports .standard).document.imports
        (resolve d more .standard).document.imports := by
  intro d more
  have extended : more.Extends partedImports :=
    Imports.extends_insert (by decide +kernel) partedLink
  exact ⟨extended, by decide +kernel, by decide +kernel,
    more_documents_keep_references d .standard partedImports more extended⟩

end MessageSchema
