import Mathlib.Logic.Relation
import MessageSchema.Graph

/-!
# Walks visit exactly what can be reached

A walk marks a node before it looks at what follows the node, so that it comes
to an end on any graph. Marking must not hide anything: if a path leads through
a marked node, what lies behind that node is reached from the node itself. The
main statement says that a walk visits a node exactly if a path of edges leads
to it from a pending node without entering a node that was visited before.
-/

namespace MessageSchema.Graph

variable {α : Type} [DecidableEq α]

/-- An edge to a node that is not to be avoided. -/
def Leads (g : Graph α) (avoiding : List α) (a b : α) : Prop :=
  b ∈ g.successors a ∧ b ∉ avoiding

/-- A path of edges between nodes that are not to be avoided. -/
def Reaches (g : Graph α) (avoiding : List α) (a b : α) : Prop :=
  a ∉ avoiding ∧ Relation.ReflTransGen (g.Leads avoiding) a b

variable {g : Graph α} {avoiding : List α} {a b n : α}

/-- An edge that avoids one more node avoids the others. -/
theorem Leads.of_cons (leads : g.Leads (n :: avoiding) a b) : g.Leads avoiding a b :=
  ⟨leads.1, fun member => leads.2 (List.mem_cons_of_mem n member)⟩

/-- A path that avoids one more node avoids the others. -/
theorem Reaches.of_cons (reaches : g.Reaches (n :: avoiding) a b) : g.Reaches avoiding a b :=
  ⟨fun member => reaches.1 (List.mem_cons_of_mem n member),
    reaches.2.lift id fun _ _ => Leads.of_cons⟩

/-- Where a path may enter `n`, either it ends there, or it does not enter `n` at
all, or what follows the last visit to `n` is a path that does not. -/
theorem Reaches.split (n : α) (reaches : g.Reaches avoiding a b) :
    b = n ∨ g.Reaches (n :: avoiding) a b
      ∨ ∃ next ∈ g.successors n, g.Reaches (n :: avoiding) next b := by
  obtain ⟨start, path⟩ := reaches
  induction path with
  | refl =>
    by_cases same : a = n
    · exact .inl same
    · refine .inr (.inl ⟨?_, .refl⟩)
      simp [same, start]
  | @tail b c path edge ih =>
    by_cases same : c = n
    · exact .inl same
    · have clear : c ∉ n :: avoiding := by simp [same, edge.2]
      rcases ih with rfl | whole | ⟨next, follows, rest⟩
      · exact .inr (.inr ⟨c, edge.1, clear, .refl⟩)
      · exact .inr (.inl ⟨whole.1, whole.2.tail ⟨edge.1, clear⟩⟩)
      · exact .inr (.inr ⟨next, follows, rest.1, rest.2.tail ⟨edge.1, clear⟩⟩)

/-- A walk visits exactly the nodes that can be reached from a pending one. The
induction follows the walk: a node that is taken up is marked, and by
`Reaches.split` no path is lost by that. -/
theorem mem_walkFrom_iff (g : Graph α) (visited pending : List α) (m : α) :
    m ∈ g.walkFrom visited pending ↔ ∃ n ∈ pending, g.Reaches visited n m := by
  fun_induction walkFrom g visited pending with
  | case1 visited => simp
  | case2 visited n rest seen ih =>
    rw [ih]
    constructor
    · rintro ⟨k, member, reaches⟩
      exact ⟨k, List.mem_cons_of_mem n member, reaches⟩
    · rintro ⟨k, member, reaches⟩
      rcases List.mem_cons.mp member with rfl | inside
      · exact absurd seen reaches.1
      · exact ⟨k, inside, reaches⟩
  | case3 visited n rest new _ ih =>
    rw [List.mem_cons, ih]
    constructor
    · rintro (rfl | ⟨k, member, reaches⟩)
      · exact ⟨m, List.mem_cons_self, new, .refl⟩
      · rcases List.mem_append.mp member with follows | inside
        · have outside := reaches.of_cons
          exact ⟨n, List.mem_cons_self, new, outside.2.head ⟨follows, outside.1⟩⟩
        · exact ⟨k, List.mem_cons_of_mem n inside, reaches.of_cons⟩
    · rintro ⟨k, member, reaches⟩
      rcases reaches.split n with same | whole | ⟨next, follows, later⟩
      · exact .inl same
      · rcases List.mem_cons.mp member with rfl | inside
        · exact absurd List.mem_cons_self whole.1
        · exact .inr ⟨k, List.mem_append_right _ inside, whole⟩
      · exact .inr ⟨next, List.mem_append_left _ follows, later⟩

/-- A walk from a node visits what a path leads to without entering what is to be avoided. -/
theorem mem_reachedFrom_iff (g : Graph α) (avoiding : List α) (start m : α) :
    m ∈ g.reachedFrom avoiding start ↔ g.Reaches avoiding start m := by
  rw [reachedFrom, mem_walkFrom_iff]
  simp

/-- Where nothing is avoided, all that counts is the edges. -/
theorem mem_reachedFrom_nil_iff (g : Graph α) (start m : α) :
    m ∈ g.reachedFrom [] start ↔ Relation.ReflTransGen (fun a b => b ∈ g.successors a) start m := by
  have edges : g.Leads [] = fun a b => b ∈ g.successors a := by
    funext a b
    exact propext (and_iff_left List.not_mem_nil)
  rw [mem_reachedFrom_iff, Reaches, edges]
  exact and_iff_right List.not_mem_nil

/-- A walk from two lists of nodes is a walk from the first, then one from the
second that knows what the first has visited. -/
theorem walkFrom_append (g : Graph α) (visited first second : List α) :
    g.walkFrom visited (first ++ second)
      = g.walkFrom visited first
        ++ g.walkFrom ((g.walkFrom visited first).reverse ++ visited) second := by
  fun_induction walkFrom g visited first with
  | case1 visited => rfl
  | case2 visited n rest seen ih => rw [List.cons_append, walkFrom, dif_pos seen, ih]
  | case3 visited n rest new _ ih =>
    rw [List.cons_append, walkFrom, dif_neg new, ← List.append_assoc, ih]
    simp

/-- A node listed once has the successors of its entry. -/
theorem successors_of_mem {targets : List α} (unique : (g.edges.map Prod.fst).Nodup)
    (listed : (n, targets) ∈ g.edges) : g.successors n = targets := by
  unfold successors
  generalize g.edges = edges at unique listed
  induction edges with
  | nil => exact absurd listed List.not_mem_nil
  | cons edge rest ih =>
    obtain ⟨key, others⟩ := edge
    simp only [List.map_cons, List.nodup_cons] at unique
    rcases List.mem_cons.mp listed with same | inside
    · obtain ⟨rfl, rfl⟩ := Prod.mk.inj same
      exact if_pos rfl
    · have other : key ≠ n := by
        rintro rfl
        exact unique.1 (List.mem_map.mpr ⟨_, inside, rfl⟩)
      rw [successorsIn, if_neg other]
      exact ih unique.2 inside

/-- A node that is not listed has no successors. -/
theorem successors_of_not_mem (absent : n ∉ g.edges.map Prod.fst) : g.successors n = [] := by
  unfold successors
  generalize g.edges = edges at absent
  induction edges with
  | nil => rfl
  | cons edge rest ih =>
    obtain ⟨key, targets⟩ := edge
    simp only [List.map_cons, List.mem_cons, not_or] at absent
    rw [successorsIn, if_neg (Ne.symm absent.1)]
    exact ih absent.2

end MessageSchema.Graph
