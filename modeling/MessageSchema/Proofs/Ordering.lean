import Mathlib.Data.List.Sort
import Mathlib.Data.Prod.Lex
import MessageSchema.Proofs.Reports

/-!
# The order of findings

Each stage of an analysis puts its own findings in the order of their places, and
the analysis puts everything in order once more. A stable sort is determined by what
it keeps: the places ascend, and the findings at any one place are those that were
made there, in the order in which they were made. Sorting a part of a list keeps the
findings at every place as they were, so it makes no difference that the stages sort
first: the outcome is the stable sort of all that was found, one stage after the
other.

For the same reason the order of the checks shows only at places where several of
them find something. Elsewhere the findings are the same, whatever the order.
-/

namespace MessageSchema

namespace Diagnostic

/-- What findings are ordered by: where they start, and then where they stop. -/
def place (d : Diagnostic) : Nat ×ₗ Nat :=
  toLex (d.span.start, d.span.stop)

/-- The stable sort of a list of findings by their places: the same findings with
ascending places, and those at one place in the order of the list. -/
structure StableSort (made shown : List Diagnostic) : Prop where
  same : shown.Perm made
  ascending : shown.Pairwise fun a b => a.place ≤ b.place
  stable : ∀ place, shown.filter (·.place = place) = made.filter (·.place = place)

/-- What the sorting asks of two findings is how their places compare: the pairs of start and
stop, the start first. -/
theorem placedBefore_iff {a b : Diagnostic} : a.placedBefore b = true ↔ a.place ≤ b.place := by
  simp [placedBefore, place, Prod.Lex.toLex_le_toLex]

/-- Findings at one place are in order as they are. -/
theorem filter_place_sorted (ds : List Diagnostic) (place : Nat ×ₗ Nat) :
    (sorted ds).filter (·.place = place) = ds.filter (·.place = place) := by
  rw [filter_sorted]
  apply sorted_eq_self
  apply List.pairwise_of_forall_mem_list
  intro a first b second
  simp only [List.mem_filter, decide_eq_true_eq] at first second
  exact placedBefore_iff.mpr (first.2.trans second.2.symm).le

/-- Sorting findings is a stable sort of them: what is equal in place keeps its order. -/
theorem sorted_stableSort (ds : List Diagnostic) : StableSort ds (sorted ds) :=
  ⟨sorted_perm ds, (pairwise_sorted ds).imp placedBefore_iff.mp, filter_place_sorted ds⟩

/-- Lists with the same findings at every place have the same findings. -/
theorem perm_of_filter_place {first second : List Diagnostic}
    (same : ∀ place, first.filter (·.place = place) = second.filter (·.place = place)) :
    first.Perm second := by
  apply List.perm_iff_count.mpr
  intro x
  have here : (first.filter (·.place = x.place)).count x
      = (second.filter (·.place = x.place)).count x := by rw [same]
  rwa [List.count_filter (by simp), List.count_filter (by simp)] at here

/-- Lists with ascending places are equal if they have the same findings at every
place. The first finding of the one is at the least place, and so is the first of the
other; at this place both lists begin with it. -/
theorem eq_of_filter_place {first second : List Diagnostic}
    (ascending : first.Pairwise fun a b => a.place ≤ b.place)
    (other : second.Pairwise fun a b => a.place ≤ b.place)
    (same : ∀ place, first.filter (·.place = place) = second.filter (·.place = place)) :
    first = second := by
  induction first generalizing second with
  | nil => exact (List.nil_perm.mp (perm_of_filter_place same)).symm
  | cons a rest ih =>
    have perm := perm_of_filter_place same
    cases second with
    | nil => exact absurd (List.perm_nil.mp perm) (List.cons_ne_nil a rest)
    | cons b others =>
      have le : a.place ≤ b.place := by
        rcases List.mem_cons.mp (perm.mem_iff.mpr List.mem_cons_self) with rfl | later
        · exact le_refl _
        · exact (List.pairwise_cons.mp ascending).1 b later
      have ge : b.place ≤ a.place := by
        rcases List.mem_cons.mp (perm.mem_iff.mp List.mem_cons_self) with rfl | later
        · exact le_refl _
        · exact (List.pairwise_cons.mp other).1 a later
      have heads := same a.place
      rw [List.filter_cons_of_pos (by simp),
        List.filter_cons_of_pos (by simp [le_antisymm le ge])] at heads
      obtain ⟨rfl, tails⟩ := List.cons.inj heads
      refine congrArg (a :: ·) (ih ascending.tail other.tail fun place => ?_)
      by_cases here : a.place = place
      · exact here ▸ tails
      · have whole := same place
        rwa [List.filter_cons_of_neg (by simpa using here),
          List.filter_cons_of_neg (by simpa using here)] at whole

/-- There is only one stable sort. -/
theorem StableSort.eq_sorted {made shown : List Diagnostic} (sort : StableSort made shown) :
    shown = sorted made := by
  have other := sorted_stableSort made
  apply eq_of_filter_place sort.ascending other.ascending
  intro place
  rw [sort.stable, other.stable]

/-- A stable sort does not depend on the order in which findings at different places
were made. -/
theorem StableSort.of_filter_place {first second shown : List Diagnostic}
    (sort : StableSort first shown)
    (same : ∀ place, first.filter (·.place = place) = second.filter (·.place = place)) :
    StableSort second shown :=
  ⟨sort.same.trans (perm_of_filter_place same), sort.ascending,
    fun place => (sort.stable place).trans (same place)⟩

/-- Sorted lists of the same findings have the same places in the same order. -/
theorem forall₂_place_of_perm {first second : List Diagnostic} (same : first.Perm second) :
    List.Forall₂ (fun a b => a.place = b.place) (sorted first) (sorted second) := by
  have ascending (ds : List Diagnostic) : ((sorted ds).map place).SortedLE :=
    (List.pairwise_map.mpr (sorted_stableSort ds).ascending).sortedLE
  have perm : (sorted first).Perm (sorted second) :=
    (sorted_perm first).trans (same.trans (sorted_perm second).symm)
  have places : (sorted first).map place = (sorted second).map place :=
    List.Perm.eq_of_sortedLE (ascending first) (ascending second) (perm.map place)
  rwa [← List.forall₂_eq_eq_eq, List.forall₂_map_left_iff, List.forall₂_map_right_iff] at places

end Diagnostic

/-! ## All stages -/

/-- What the grammar finds, in the order in which it was found. -/
def Parsed.grammarFindings (parsed : Parsed) : List Diagnostic :=
  parsed.findings.filter (·.problem.isSyntactic)

/-- Reading a source finds the faults of its tokens first, and then what the grammar
finds. -/
theorem parseSource_findings (source : String) :
    (parseSource source).findings
      = tokenFindings (tokenize source) ++ (parseSource source).grammarFindings := by
  obtain ⟨added, told, reported⟩ := parse_findings (tokenize source)
  have findings : (parseSource source).findings = tokenFindings (tokenize source) ++ added := told
  have lexical : (tokenFindings (tokenize source)).filter (·.problem.isSyntactic) = [] := by
    apply List.filter_eq_nil_iff.mpr
    intro d member
    rw [Problem.isSyntactic_of_isLexical (tokenFindings_lexical source d member)]
    exact Bool.false_ne_true
  have syntactic : added.filter (·.problem.isSyntactic) = added :=
    List.filter_eq_self.mpr fun d member => (reported d member).syntactic
  rw [Parsed.grammarFindings, findings, List.filter_append, lexical, syntactic, List.nil_append]

/-- What the stages of an analysis find, one stage after the other, and within each
stage in the order in which it is found: faults of tokens, what the grammar finds, what
is wrong with the declarations, what resolution finds, and the findings of the checks,
one check after the other. Nothing is sorted here. -/
def Stages.findings (stages : Stages) : List Diagnostic :=
  tokenFindings stages.tokens ++ stages.parsed.grammarFindings
    ++ stages.parsed.tree.documentFindings ++ stages.resolved.findings
    ++ Check.findingsOf Check.all stages.config stages.resolved.document

/-- Each stage shows at a place what it has found there. -/
theorem filter_place_stageDiagnostics (source name : String) (imports : Imports) (config : Config)
    (place : Nat ×ₗ Nat) :
    (Stages.ofSource source name imports config).stageDiagnostics.filter (·.place = place)
      = (Stages.ofSource source name imports config).findings.filter (·.place = place) := by
  let stages := Stages.ofSource source name imports config
  have parsed : stages.parsed.findings
      = tokenFindings stages.tokens ++ stages.parsed.grammarFindings := parseSource_findings source
  rw [Stages.stageDiagnostics, Stages.findings, Parsed.diagnostics, Node.documentDiagnostics,
    Resolved.diagnostics, validate, validationFindings]
  show ((Diagnostic.sorted stages.parsed.findings ++ _) ++ _ ++ _).filter _ = _
  simp only [List.filter_append, Diagnostic.filter_place_sorted, parsed]
  rfl

/-- No finding is lost and none changes its place in the order. What an analysis tells
is the stable sort of what its stages find, although every stage sorts before. And if
the checks are made in another order, the findings of the checks are the same and stand
at the same places; only those at one place may be exchanged.

Proof: the stages sort their own findings, but sorting keeps what stands at one place in order,
so sorting twice is sorting once. Other orders of the checks give a permutation of the findings,
and a sort shows the same places for every permutation. -/
theorem diagnostics_stably_sorted (source name : String) (imports : Imports) (config : Config) :
    let found := (Stages.ofSource source name imports config).findings
    let shown := (analyze source name imports config).diagnostics
    (Diagnostic.StableSort found shown ∧ shown = Diagnostic.sorted found)
      ∧ ∀ (d : Document) (checks : List Check), checks.Perm Check.all →
        (Diagnostic.sorted (Check.findingsOf checks config d)).Perm (validate config d)
          ∧ List.Forall₂ (fun a b => a.place = b.place)
            (Diagnostic.sorted (Check.findingsOf checks config d)) (validate config d) := by
  intro found shown
  have sort : Diagnostic.StableSort found shown :=
    (Diagnostic.sorted_stableSort _).of_filter_place
      (filter_place_stageDiagnostics source name imports config)
  refine ⟨⟨sort, sort.eq_sorted⟩, ?_⟩
  intro d checks reordered
  have same : (Check.findingsOf checks config d).Perm (Check.findingsOf Check.all config d) :=
    reordered.flatMap_right _
  constructor
  · exact (Diagnostic.sorted_perm _).trans (same.trans (Diagnostic.sorted_perm _).symm)
  · exact Diagnostic.forall₂_place_of_perm same

/-- A source that declares a type twice under the name of a builtin type. -/
def clashSource : String :=
  "message Int \x7b \x7d\nmessage Int \x7b \x7d"

/-- Two checks find something at the second name, and they change places if the checks
are made in reverse. -/
theorem clashSource_reversed :
    let d := (analyze clashSource "main" .empty .standard).document
    let backwards := Diagnostic.sorted (Check.findingsOf Check.all.reverse .standard d)
    Check.all.reverse.Perm Check.all
      ∧ (validate .standard d).filter (·.place = toLex (24, 27))
        = [⟨.duplicateDeclaration "Int", ⟨24, 27, 2, 9⟩⟩, ⟨.reservedIdentifier "Int", ⟨24, 27, 2, 9⟩⟩]
      ∧ backwards.filter (·.place = toLex (24, 27))
        = [⟨.reservedIdentifier "Int", ⟨24, 27, 2, 9⟩⟩, ⟨.duplicateDeclaration "Int", ⟨24, 27, 2, 9⟩⟩]
      ∧ backwards.Perm (validate .standard d)
      ∧ List.Forall₂ (fun a b => a.place = b.place) backwards (validate .standard d) := by
  intro d backwards
  have reordered : Check.all.reverse.Perm Check.all := List.reverse_perm _
  have same := (diagnostics_stably_sorted clashSource "main" .empty .standard).2 d _ reordered
  refine ⟨reordered, ?_, ?_, same⟩
  · rw [validate, Diagnostic.filter_place_sorted]
    decide +kernel
  · rw [Diagnostic.filter_place_sorted]
    decide +kernel

end MessageSchema
