import MessageSchema.Problem
import MessageSchema.Source.Span

/-!
# Findings and their order

A diagnostic is a problem at a place. Lists of findings are shown in the order
of their places; the sort is stable, so that findings at one place keep the
order in which they were made.
-/

namespace MessageSchema

/-- A problem at a span of the source. -/
structure Diagnostic where
  problem : Problem
  span : Span
deriving DecidableEq

namespace Diagnostic

/-- The code under which hosts know the problem. -/
def code (d : Diagnostic) : String := d.problem.code

/-- The text of the problem. -/
def message (d : Diagnostic) : String := d.problem.message

/-- How grave the problem is. -/
def severity (d : Diagnostic) : Severity := d.problem.severity

/-- Whether a finding makes the document wrong, and not only doubtful. -/
def isError (d : Diagnostic) : Bool :=
  d.severity = .error

/-- Whether `d` may stand before `other`: it starts first, or starts together
and does not stop later. -/
def placedBefore (d other : Diagnostic) : Bool :=
  d.span.start < other.span.start
    || d.span.start == other.span.start && d.span.stop ≤ other.span.stop

/-- The findings in the order of their places. -/
def sorted (ds : List Diagnostic) : List Diagnostic :=
  ds.mergeSort placedBefore

/-- The order of places is transitive, also through findings that start together. -/
theorem placedBefore_trans (a b c : Diagnostic)
    (first : a.placedBefore b = true) (second : b.placedBefore c = true) :
    a.placedBefore c = true := by
  simp only [placedBefore, Bool.or_eq_true, Bool.and_eq_true, decide_eq_true_eq,
    beq_iff_eq] at *
  omega

/-- Of two findings one may stand before the other; both may if they have the same place. -/
theorem placedBefore_total (a b : Diagnostic) :
    (a.placedBefore b || b.placedBefore a) = true := by
  simp only [placedBefore, Bool.or_eq_true, Bool.and_eq_true, decide_eq_true_eq, beq_iff_eq]
  omega

/-- Sorting loses no finding and invents none. -/
theorem sorted_perm (ds : List Diagnostic) : (sorted ds).Perm ds :=
  List.mergeSort_perm ds placedBefore

/-- After sorting, every finding may stand before all that follow it. -/
theorem pairwise_sorted (ds : List Diagnostic) :
    (sorted ds).Pairwise fun a b => a.placedBefore b :=
  List.pairwise_mergeSort placedBefore_trans placedBefore_total ds

/-- A list in order is its own sorted list. -/
theorem sorted_eq_self {ds : List Diagnostic}
    (ordered : ds.Pairwise fun a b => a.placedBefore b) : sorted ds = ds :=
  List.mergeSort_of_pairwise ordered

end Diagnostic

end MessageSchema
