/-!
# Walks through finite graphs

A graph is a list of nodes with their successors; a node that is not listed has
none. The walk visits a node, then everything new below its first successor,
then below the second, and so on, and visits no node twice. Its result is the
list of the nodes in the order of the visits, so a search is an ordinary search
of that list.

The list of edges bounds the walk: a visit to a listed node removes that node
and its successors from the work that can still arise.
-/

namespace MessageSchema

/-- A finite directed graph. -/
structure Graph (α : Type) where
  edges : List (α × List α)

namespace Graph

variable {α : Type} [DecidableEq α]

/-- The successors that a list of edges gives to a node. The first entry counts. -/
def successorsIn (n : α) : List (α × List α) → List α
  | [] => []
  | (key, targets) :: rest => if key = n then targets else successorsIn n rest

/-- The successors of a node. -/
def successors (g : Graph α) (n : α) : List α :=
  successorsIn n g.edges

/-- The work that visits to nodes not yet visited can still make: one step for
the node and one for each of its successors. -/
def workIn (visited : List α) : List (α × List α) → Nat
  | [] => 0
  | (key, targets) :: rest =>
    (if key ∈ visited then 0 else targets.length + 1) + workIn visited rest

/-- A further visit leaves no more work than there was: it can only strike edges out. The
induction is on the edges, and an edge is struck out if it starts at the visited node. -/
theorem workIn_cons_le (n : α) (visited : List α) (edges : List (α × List α)) :
    workIn (n :: visited) edges ≤ workIn visited edges := by
  induction edges with
  | nil => exact Nat.le_refl _
  | cons edge rest ih =>
    obtain ⟨key, targets⟩ := edge
    simp only [workIn]
    by_cases seen : key ∈ visited
    · simp only [seen, List.mem_cons_of_mem n seen, if_true]
      omega
    · by_cases same : key = n
      · simp only [same, List.mem_cons_self, if_true]
        omega
      · simp only [seen, List.mem_cons, same, or_self, if_false]
        omega

/-- A first visit removes at least the successors that it adds. -/
theorem successorsIn_add_workIn {n : α} {visited : List α} (new : n ∉ visited)
    (edges : List (α × List α)) :
    (successorsIn n edges).length + workIn (n :: visited) edges ≤ workIn visited edges := by
  induction edges with
  | nil => exact Nat.le_refl _
  | cons edge rest ih =>
    obtain ⟨key, targets⟩ := edge
    simp only [workIn, successorsIn]
    by_cases same : key = n
    · have less := workIn_cons_le n visited rest
      simp only [same, new, List.mem_cons_self, if_true, if_false]
      omega
    · by_cases seen : key ∈ visited
      · simp only [same, seen, List.mem_cons_of_mem n seen, if_true, if_false]
        omega
      · simp only [same, seen, List.mem_cons, or_self, if_false]
        omega

/-- The nodes first visited when the pending ones are taken up in their order,
given the nodes already visited. -/
def walkFrom (g : Graph α) (visited pending : List α) : List α :=
  match pending with
  | [] => []
  | n :: rest =>
    if seen : n ∈ visited then g.walkFrom visited rest
    else
      have := successorsIn_add_workIn seen g.edges
      n :: g.walkFrom (n :: visited) (g.successors n ++ rest)
termination_by pending.length + workIn visited g.edges
decreasing_by
  · simp only [List.length_cons]
    omega
  · simp only [List.length_append, List.length_cons, successors]
    omega

/-- The nodes reached from `start` without entering a node of `avoiding`, in the
order of the walk. -/
def reachedFrom (g : Graph α) (avoiding : List α) (start : α) : List α :=
  g.walkFrom avoiding [start]

end Graph

end MessageSchema
