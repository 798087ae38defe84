import MessageSchema.Proofs.Cycles

/-!
# Resolving a document again

A host resolves a document again when the supplied documents or the configuration have
changed, and what it has at hand then is the document as it was resolved before. The
references in it stand for something already, and its imports have a status. None of
this may show in the new outcome.

What resolution writes are the resolutions of references and the status of imports.
Resolutions it does not read at all: a reference is looked up by its text. Of the status
it reads one thing, whether the import is malformed, and this it never changes. So a
resolved document has the same scope as before, the same references and imports are
reported, and everything that was written is written anew.
-/

namespace MessageSchema

namespace Scope

variable (scope : Scope) (d : Document)

/-! ## What a resolved document declares -/

/-- Resolution leaves the name of a declaration. -/
theorem name_resolveDeclaration (used : List String) (declaration : Declaration) :
    (scope.resolveDeclaration used declaration).name = declaration.name := by
  cases declaration <;> rfl

/-- Resolution leaves the kind of a declaration. -/
theorem kind?_resolveDeclaration (used : List String) (declaration : Declaration) :
    (scope.resolveDeclaration used declaration).kind? = declaration.kind? := by
  cases declaration <;> rfl

/-- The types of a resolved document have the identities that they had before. -/
theorem types_resolveDocument :
    (scope.resolveDocument d).types
      = d.types.map fun entry => (scope.resolveDeclaration (scope.usedImports d) entry.1, entry.2) := by
  rw [Document.types, Document.types, resolveDocument, List.zipIdx_map, List.filterMap_map,
    List.map_filterMap]
  apply List.filterMap_congr
  rintro ⟨declaration, index⟩ _
  simp [kind?_resolveDeclaration, Function.comp_def]

/-- A resolved document has the same symbols, since they are made of names and identities. -/
theorem symbols_resolveDocument :
    SymbolTable.ofDocument (scope.resolveDocument d) = SymbolTable.ofDocument d := by
  rw [SymbolTable.ofDocument, SymbolTable.ofDocument, types_resolveDocument, List.foldl_map]
  simp only [name_resolveDeclaration]

/-- Resolution leaves the scope as it was. -/
theorem ofDocument_resolveDocument (imports : Imports) (config : Config) :
    ofDocument (scope.resolveDocument d) imports config = ofDocument d imports config := by
  rw [ofDocument, ofDocument, symbols_resolveDocument, importNames_resolveDocument]
  rfl

end Scope

namespace Scope

variable (scope earlier : Scope) (d : Document) (used before : List String)

/-! ## What is written anew -/

/-- What a reference stood for before is not read. -/
theorem lookup_resolveRef (t : TypeRef) : scope.lookup (earlier.resolveRef t) = scope.lookup t :=
  rfl

/-- A field that was resolved before resolves as if it had not been: a reference is looked up by
its text, and what was written in it is written over. -/
theorem resolveField_resolveField (f : Field) :
    scope.resolveField (earlier.resolveField f) = scope.resolveField f := by
  have types : (f.typeRef.map earlier.resolveRef).map scope.resolveRef
      = f.typeRef.map scope.resolveRef := by
    rw [Option.map_map]
    rfl
  simp only [resolveField, types]

/-- An import is malformed after resolution if it was so before. -/
theorem importStatus_eq_recovered_iff (i : Import) :
    scope.importStatus used i = .recovered ↔ i.status = .recovered := by
  unfold importStatus
  split
  · next malformed => exact iff_of_true rfl malformed
  · next sound =>
    split
    · exact iff_of_false nofun sound
    · exact iff_of_false nofun sound

/-- Of the status that an import had before, only this is read. -/
theorem importStatus_of_status {i j : Import} (name : i.name = j.name)
    (malformed : i.status = .recovered ↔ j.status = .recovered) :
    scope.importStatus used i = scope.importStatus used j := by
  simp only [importStatus, name, malformed]

/-- Whether an import leads back depends on its name, and of its status only on whether it is
malformed. -/
theorem isCyclic_of_status {i j : Import} (name : i.name = j.name)
    (malformed : i.status = .recovered ↔ j.status = .recovered) :
    scope.isCyclic i = scope.isCyclic j := by
  simp only [isCyclic, name, ne_eq, malformed]

/-- A declaration that was resolved before resolves as if it had not been. -/
theorem resolveDeclaration_resolveDeclaration (declaration : Declaration) :
    scope.resolveDeclaration used (earlier.resolveDeclaration before declaration)
      = scope.resolveDeclaration used declaration := by
  cases declaration with
  | importing i =>
    have status : scope.importStatus used { i with status := earlier.importStatus before i }
        = scope.importStatus used i :=
      scope.importStatus_of_status used rfl (earlier.importStatus_eq_recovered_iff before i)
    simp only [resolveDeclaration, status]
  | message m =>
    have fields : (m.fields.map earlier.resolveField).map scope.resolveField
        = m.fields.map scope.resolveField := by
      rw [List.map_map]
      exact List.map_congr_left fun f _ => scope.resolveField_resolveField earlier f
    simp only [resolveDeclaration, fields]
  | enum e => rfl

/-- The same imports are used when the document was resolved before. -/
theorem usedImports_resolveDocument :
    scope.usedImports (earlier.resolveDocument d) = scope.usedImports d := by
  rw [usedImports, usedImports, typeRefs_resolveDocument, List.filterMap_map]
  simp only [Function.comp_def, lookup_resolveRef]

/-- A document that was resolved before, in any scope, resolves as if it had not been. -/
theorem resolveDocument_resolveDocument :
    scope.resolveDocument (earlier.resolveDocument d) = scope.resolveDocument d := by
  have declarations : (earlier.resolveDocument d).declarations.map
        (scope.resolveDeclaration (scope.usedImports (earlier.resolveDocument d)))
      = d.declarations.map (scope.resolveDeclaration (scope.usedImports d)) := by
    rw [usedImports_resolveDocument, resolveDocument, List.map_map]
    exact List.map_congr_left fun e _ => scope.resolveDeclaration_resolveDeclaration earlier _ _ e
  rw [resolveDocument, declarations]
  rfl

/-! ## What is found anew -/

/-- The same imports lead back, told by their names. -/
theorem cyclicImports_resolveDocument :
    (scope.cyclicImports (earlier.resolveDocument d)).map Import.cycleFinding
      = (scope.cyclicImports d).map Import.cycleFinding := by
  let renew (i : Import) : Import :=
    { i with status := earlier.importStatus (earlier.usedImports d) i }
  have cyclic : scope.isCyclic ∘ renew = scope.isCyclic := by
    funext i
    exact scope.isCyclic_of_status rfl (earlier.importStatus_eq_recovered_iff _ i)
  rw [cyclicImports, imports_resolveDocument]
  show ((d.imports.map renew).filter scope.isCyclic).map Import.cycleFinding = _
  rw [List.filter_map, cyclic, List.map_map]
  rfl

/-- The same is found when the document was resolved before: the same imports lead back, and the
same references have no meaning. -/
theorem findings_resolveDocument :
    scope.findings (earlier.resolveDocument d) = scope.findings d := by
  have cycles := scope.cyclicImports_resolveDocument earlier d
  have refs : (scope.unresolvedRefs (earlier.resolveDocument d)).map
        (fun t => (⟨.unresolvedType t.raw, t.span⟩ : Diagnostic))
      = (scope.unresolvedRefs d).map fun t => ⟨.unresolvedType t.raw, t.span⟩ := by
    rw [unresolvedRefs, typeRefs_resolveDocument, List.filter_map, List.map_map]
    simp only [Function.comp_def, lookup_resolveRef]
    rfl
  show List.map Import.cycleFinding _ ++ _ = List.map Import.cycleFinding _ ++ _
  rw [cycles, refs]

end Scope

/-! ## Any number of times -/

/-- What a document was resolved to before makes no difference. -/
theorem resolve_resolve (d : Document) (earlier imports : Imports) (before config : Config) :
    resolve (resolve d earlier before).document imports config = resolve d imports config := by
  let old := Scope.ofDocument d earlier before
  let scope := Scope.ofDocument d imports config
  have again : Scope.ofDocument (old.resolveDocument d) imports config = scope :=
    old.ofDocument_resolveDocument d imports config
  have document : (resolve d earlier before).document = old.resolveDocument d := rfl
  rw [document, resolve, again]
  show Resolved.mk (scope.resolveDocument (old.resolveDocument d)) scope.symbols
    (scope.findings (old.resolveDocument d)) = _
  rw [scope.resolveDocument_resolveDocument old d, scope.findings_resolveDocument old d]
  rfl

/-- A document that was resolved again and again, each time against other supplied
documents and under another configuration. -/
def Document.resolvedThrough (d : Document) (history : List (Imports × Config)) : Document :=
  history.foldl (fun d (imports, config) => (resolve d imports config).document) d

/-- Resolution leaves nothing behind that a later resolution could see. A document that
was resolved before, against whatever documents and under whatever configuration, is
resolved to the same document, symbols and findings as if it had not been; and this
holds however often it was resolved.

Proof: one earlier resolution changes nothing, as all that it wrote is written over. Any number
of them is an induction on the history. -/
theorem resolution_leaves_no_trace (d : Document) (imports : Imports) (config : Config) :
    (∀ (earlier : Imports) (before : Config),
      resolve (resolve d earlier before).document imports config = resolve d imports config)
      ∧ ∀ history, resolve (d.resolvedThrough history) imports config
        = resolve d imports config := by
  refine ⟨fun earlier before => resolve_resolve d earlier imports before config, ?_⟩
  intro history
  induction history generalizing d with
  | nil => rfl
  | cons first rest ih =>
    obtain ⟨earlier, before⟩ := first
    exact (ih (resolve d earlier before).document).trans
      (resolve_resolve d earlier imports before config)

end MessageSchema
