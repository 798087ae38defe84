import MessageSchema.Proofs.Resolution
import MessageSchema.Proofs.Sorting

/-!
# Imports that lead back

Documents may import each other in a circle, and an import that leads back to the
document that it stands in is worth a warning. A host is free in what it supplies,
so the chain from an import back to the document can be of any length, can touch
circles that do not concern the document, and can end in keys under which nothing
is supplied. It has come back at a key that is the document's own name, or at one
under which a document of that name is supplied.

A warning is made for exactly those import declarations from which such a chain
begins, one for each of them. Imports that are malformed or have no name are not
judged.
-/

namespace MessageSchema

/-! ## Chains of imports -/

namespace Imports

/-- The document supplied under the first key imports the second. -/
def Links (imports : Imports) (key next : String) : Prop :=
  ∃ e, imports.get? key = some e ∧ next ∈ e.importNames

/-- A chain of imports from a key to one that is the name `home`, or under which a
document of that name is supplied. The chain may be the key alone. -/
def ReturnsTo (imports : Imports) (home key : String) : Prop :=
  ∃ last, Relation.ReflTransGen imports.Links key last
    ∧ (last = home ∨ ∃ e, imports.get? last = some e ∧ e.name = home)

variable {imports : Imports} {home key next : String}

/-- The graph that is walked has an edge for every import of a supplied document. -/
theorem mem_successors_graph_iff : next ∈ imports.graph.successors key ↔ imports.Links key next := by
  rw [successors_graph, Links]
  cases imports.get? key <;> simp

/-- A key counts as the document itself if it is its name or one of its name is supplied under
it. -/
theorem isSelf_iff :
    imports.isSelf home key = true
      ↔ key = home ∨ ∃ e, imports.get? key = some e ∧ e.name = home := by
  simp [isSelf, Option.any_eq_true]

/-- The walk that looks for the document goes along every chain: what it has marked
in a branch that failed, it has followed to the end there. -/
theorem leadsBack_iff : imports.leadsBack home key = true ↔ imports.ReturnsTo home key := by
  simp only [leadsBack, List.any_eq_true, Graph.mem_reachedFrom_nil_iff, mem_successors_graph_iff,
    isSelf_iff]
  rfl

end Imports

/-! ## Imports that are warned about -/

/-- An import of a document that leads back to it: well formed, with a name, and
the beginning of a chain that returns. -/
structure Import.ClosesCycle (i : Import) (d : Document) (imports : Imports) : Prop where
  trusted : i.status ≠ .recovered
  named : i.name ≠ ""
  returns : imports.ReturnsTo d.name i.name

/-- An import is warned of exactly if it is sound, has a name, and a chain of imports leads from
it back to the document. -/
theorem Scope.isCyclic_iff {d : Document} {imports : Imports} {i : Import} (config : Config) :
    (ofDocument d imports config).isCyclic i = true ↔ i.ClosesCycle d imports := by
  have judged : (ofDocument d imports config).isCyclic i = true
      ↔ (i.status ≠ .recovered ∧ i.name ≠ "") ∧ imports.leadsBack d.name i.name = true := by
    simp only [isCyclic, Bool.and_eq_true, decide_eq_true_eq]
    rfl
  rw [judged, Imports.leadsBack_iff]
  constructor
  · rintro ⟨⟨trusted, named⟩, returns⟩
    exact ⟨trusted, named, returns⟩
  · rintro ⟨trusted, named, returns⟩
    exact ⟨⟨trusted, named⟩, returns⟩

/-- Chains can be searched for, whatever the graph of the supplied documents. -/
instance (i : Import) (d : Document) (imports : Imports) : Decidable (i.ClosesCycle d imports) :=
  decidable_of_iff _ (Scope.isCyclic_iff .standard)

/-- The warning about an import, at its name. -/
def Import.cycleFinding (i : Import) : Diagnostic :=
  ⟨.importCycle i.name, i.nameSpan⟩

/-- Besides cycles only unresolved references are found. -/
theorem Scope.filter_findings_importCycle (scope : Scope) (d : Document) :
    (scope.findings d).filter (·.problem matches .importCycle _)
      = (scope.cyclicImports d).map Import.cycleFinding := by
  rw [findings, List.filter_append, List.filter_eq_self.mpr, List.filter_eq_nil_iff.mpr,
    List.append_nil]
  · rfl
  · intro finding member
    obtain ⟨t, -, rfl⟩ := List.mem_map.mp member
    exact Bool.false_ne_true
  · intro finding member
    obtain ⟨i, -, rfl⟩ := List.mem_map.mp member
    rfl

/-- Resolution warns about an import exactly if it leads back to the document. The
warnings are one for each such import declaration, in the order of their places, and
so one stands at a place exactly if the name of such an import does.

Proof: an import is judged to lead back exactly if a chain closes a cycle, so the filtered
imports are the same list. The warnings are the findings of this list, sorted by place. -/
theorem import_cycles_reported (d : Document) (imports : Imports) (config : Config) :
    let warnings :=
      (resolve d imports config).diagnostics.filter (·.problem matches .importCycle _)
    warnings
        = Diagnostic.sorted
          ((d.imports.filter fun i => i.ClosesCycle d imports).map Import.cycleFinding)
      ∧ ∀ span, (∃ warning ∈ warnings, warning.span = span)
        ↔ ∃ i ∈ d.imports, i.nameSpan = span ∧ i.ClosesCycle d imports := by
  intro warnings
  have cyclic : (Scope.ofDocument d imports config).cyclicImports d
      = d.imports.filter fun i => i.ClosesCycle d imports := by
    apply List.filter_congr
    intro i _
    rw [Bool.eq_iff_iff, Scope.isCyclic_iff, decide_eq_true_iff]
  have listed : warnings
      = Diagnostic.sorted
        ((d.imports.filter fun i => i.ClosesCycle d imports).map Import.cycleFinding) := by
    rw [← cyclic, ← Scope.filter_findings_importCycle, ← Diagnostic.filter_sorted]
    rfl
  refine ⟨listed, fun span => ?_⟩
  rw [listed]
  simp only [(Diagnostic.sorted_perm _).mem_iff, List.mem_map, List.mem_filter, decide_eq_true_eq]
  constructor
  · rintro ⟨_, ⟨i, ⟨member, closes⟩, rfl⟩, same⟩
    exact ⟨i, member, same, closes⟩
  · rintro ⟨i, member, same, closes⟩
    exact ⟨_, ⟨i, ⟨member, closes⟩, rfl⟩, same⟩

end MessageSchema
