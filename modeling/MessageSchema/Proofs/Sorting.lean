import Mathlib.Data.List.Forall2
import Mathlib.Data.List.TakeWhile
import MessageSchema.Diagnostic

/-!
# Sorting findings by their places

The sort is stable, so that adding a finding in front of a list puts it before
those at its place and behind those that are placed strictly before it. From
this one equation it follows that sorting commutes with choosing findings by any
property, with moving all of them alike, and with changing some of them as long
as no two change their order.
-/

namespace MessageSchema.Diagnostic

/-- A list in order, cut at the first finding before which `d` may stand, is cut
into those placed strictly before `d` and the others. -/
theorem cut_of_pairwise (d : Diagnostic) {ds : List Diagnostic}
    (ordered : ds.Pairwise fun a b => a.placedBefore b) :
    ds.filter (fun b => !d.placedBefore b) ++ ds.filter (fun b => d.placedBefore b) = ds := by
  induction ds with
  | nil => rfl
  | cons a rest ih =>
    obtain ⟨first, others⟩ := List.pairwise_cons.mp ordered
    cases before : d.placedBefore a with
    | false => simp [before, ih others]
    | true =>
      have all : ∀ b ∈ rest, d.placedBefore b = true := fun b member =>
        placedBefore_trans d a b before (first b member)
      have none_strictly : rest.filter (fun b => !d.placedBefore b) = [] := by
        apply List.filter_eq_nil_iff.mpr
        intro b member
        simp [all b member]
      have kept : rest.filter (fun b => d.placedBefore b) = rest :=
        List.filter_eq_self.mpr all
      simp [before, none_strictly, kept]

/-- Where a finding goes that is added in front. -/
theorem sorted_cons (d : Diagnostic) (ds : List Diagnostic) :
    sorted (d :: ds)
      = (sorted ds).filter (fun b => !d.placedBefore b)
        ++ d :: (sorted ds).filter (fun b => d.placedBefore b) := by
  obtain ⟨before, after, whole, rest, strictly⟩ :=
    List.mergeSort_cons placedBefore_trans placedBefore_total d ds
  have ordered : (before ++ d :: after).Pairwise fun a b => a.placedBefore b := by
    rw [← whole]
    exact pairwise_sorted (d :: ds)
  have behind : ∀ b ∈ after, d.placedBefore b = true :=
    (List.pairwise_cons.mp (List.pairwise_append.mp ordered).2.1).1
  have ahead : ∀ b ∈ before, d.placedBefore b = false := by
    intro b member
    simpa using strictly b member
  have first : (before ++ after).filter (fun b => !d.placedBefore b) = before := by
    rw [List.filter_append, List.filter_eq_self.mpr (by simpa using ahead),
      List.filter_eq_nil_iff.mpr (by simpa using behind), List.append_nil]
  have second : (before ++ after).filter (fun b => d.placedBefore b) = after := by
    rw [List.filter_append, List.filter_eq_nil_iff.mpr (by simpa using ahead),
      List.filter_eq_self.mpr behind, List.nil_append]
  rw [sorted, sorted, whole, rest, first, second]

/-- No findings are in order. -/
theorem sorted_nil : sorted [] = [] :=
  List.mergeSort_nil

/-- Choosing and sorting commute. -/
theorem filter_sorted (p : Diagnostic → Bool) (ds : List Diagnostic) :
    (sorted ds).filter p = sorted (ds.filter p) := by
  induction ds with
  | nil => rw [sorted_nil, List.filter_nil, sorted_nil]
  | cons d rest ih =>
    rw [sorted_cons, List.filter_append, List.filter_filter]
    cases chosen : p d with
    | true =>
      rw [List.filter_cons_of_pos chosen, List.filter_cons_of_pos chosen, sorted_cons, ← ih,
        List.filter_filter, List.filter_filter, List.filter_filter]
      simp only [Bool.and_comm]
    | false =>
      have refused : ¬ p d = true := by simp [chosen]
      rw [List.filter_cons_of_neg refused, List.filter_cons_of_neg refused, ← ih,
        List.filter_filter]
      have cut := cut_of_pairwise d ((pairwise_sorted rest).filter p)
      rw [List.filter_filter, List.filter_filter] at cut
      simpa only [Bool.and_comm] using cut

/-- Sorting does not see what findings are, only how they are placed: lists that
are related member by member, by a relation that keeps the order of any two, stay
related. -/
theorem forall₂_sorted {R : Diagnostic → Diagnostic → Prop}
    (order : ∀ {a b c d : Diagnostic}, R a b → R c d → a.placedBefore c = b.placedBefore d)
    {first second : List Diagnostic} (related : List.Forall₂ R first second) :
    List.Forall₂ R (sorted first) (sorted second) := by
  induction related with
  | nil =>
    rw [sorted_nil]
    exact .nil
  | @cons a b as bs head tail ih =>
    rw [sorted_cons, sorted_cons]
    refine List.rel_append (List.rel_filter ?_ ih) (.cons head (List.rel_filter ?_ ih))
    · intro x y pair
      simp only [order head pair]
    · intro x y pair
      simp only [order head pair]

/-- Findings that are all moved alike keep their order. -/
theorem sorted_map {f : Diagnostic → Diagnostic}
    (order : ∀ a b : Diagnostic, (f a).placedBefore (f b) = a.placedBefore b)
    (ds : List Diagnostic) : sorted (ds.map f) = (sorted ds).map f := by
  have moved : ∀ l m : List Diagnostic, List.Forall₂ (fun a b => f a = b) l m ↔ l.map f = m := by
    intro l m
    rw [← List.forall₂_map_left_iff, List.forall₂_eq_eq_eq]
  symm
  apply (moved _ _).mp
  apply forall₂_sorted
  · rintro a b c d rfl rfl
    exact (order a c).symm
  · exact (moved _ _).mpr rfl

end MessageSchema.Diagnostic
