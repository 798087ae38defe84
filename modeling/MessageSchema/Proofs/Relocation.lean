import Mathlib.Data.List.Basic
import MessageSchema.Document.OfTree
import MessageSchema.Proofs.Simulation

/-!
# Places mapped elsewhere

Any map of places can be carried through tokens, trees and findings, leaving all
else as it is. What is looked up in a tree is found by kinds alone, so looking up
commutes with every such map.

The places of nodes are combined from the places of tokens: a node covers its
children, and an empty node stands where something begins. A map that keeps these
two combinations takes the tree of some tokens to the tree of the mapped tokens.
Reading mapped tokens is then a simulation of reading the tokens themselves.
-/

namespace MessageSchema

open ParseState

/-- A map of places that keeps how the grammar combines them. -/
structure Span.Carries (move : Span → Span) : Prop where
  emptyAtStart : ∀ s : Span, (move s).emptyAtStart = move s.emptyAtStart
  union : ∀ s other : Span, (move s).union (move other) = move (s.union other)

namespace Span.Carries

variable {move : Span → Span}

/-- A union of several spans is mapped to the union of the mapped ones, by induction on the
spans. -/
theorem foldl_union (carries : Span.Carries move) (s : Span) (others : List Span) :
    (others.map move).foldl Span.union (move s) = move (others.foldl Span.union s) := by
  induction others generalizing s with
  | nil => rfl
  | cons other rest ih =>
    rw [List.map_cons, List.foldl_cons, List.foldl_cons, carries.union, ih]

/-- The same for spans of which there may be none. -/
theorem unionAll? (carries : Span.Carries move) (spans : List Span) :
    Span.unionAll? (spans.map move) = (Span.unionAll? spans).map move := by
  cases spans with
  | nil => rfl
  | cons s rest => exact congrArg some (carries.foldl_union s rest)

end Span.Carries

/-! ## Tokens, findings and trees -/

/-- A token at the mapped place. -/
def Token.relocate (move : Span → Span) (t : Token) : Token :=
  { t with span := move t.span }

/-- A finding at the mapped place. -/
def Diagnostic.relocate (move : Span → Span) (d : Diagnostic) : Diagnostic :=
  { d with span := move d.span }

mutual

/-- A node with every place in it mapped. -/
def Node.relocate (move : Span → Span) : Node → Node
  | ⟨kind, children, span⟩ => ⟨kind, Element.relocateAll move children, move span⟩

/-- A child with every place in it mapped. -/
def Element.relocate (move : Span → Span) : Element → Element
  | .token t => .token (t.relocate move)
  | .node n => .node (n.relocate move)

/-- Children with every place in them mapped. -/
def Element.relocateAll (move : Span → Span) : List Element → List Element
  | [] => []
  | e :: rest => e.relocate move :: Element.relocateAll move rest

end

variable (move : Span → Span)

/-- The fault of a token is found at its mapped place. -/
theorem Token.finding?_relocate (t : Token) :
    (t.relocate move).finding? = t.finding?.map (Diagnostic.relocate move) := by
  rw [Token.finding?, Token.finding?, Option.map_map]
  rfl

namespace Element

/-- Mapping the places of children is mapping them one by one. -/
theorem relocateAll_eq_map (children : List Element) :
    relocateAll move children = children.map (relocate move) := by
  induction children with
  | nil => rfl
  | cons e rest ih => rw [relocateAll, ih, List.map_cons]

/-- A token among the children is mapped as a token. -/
@[simp] theorem relocate_token (t : Token) : (token t).relocate move = .token (t.relocate move) := rfl

/-- A node among the children is mapped as a node. -/
@[simp] theorem relocate_node (n : Node) : (node n).relocate move = .node (n.relocate move) := rfl

/-- The place of a child is mapped. -/
@[simp] theorem span_relocate (e : Element) : (e.relocate move).span = move e.span := by
  cases e with
  | token t => rfl
  | node n =>
    cases n
    rfl

/-- A child is the mapped token if it was a token. -/
theorem token?_relocate (e : Element) :
    (e.relocate move).token? = e.token?.map (Token.relocate move) := by
  cases e <;> rfl

/-- A child is the mapped node if it was a node. -/
theorem node?_relocate (e : Element) :
    (e.relocate move).node? = e.node?.map (Node.relocate move) := by
  cases e <;> rfl

/-- Whether a child is a token of a kind does not depend on places. -/
theorem isToken_relocate (kind : TokenKind) (e : Element) :
    (e.relocate move).isToken kind = e.isToken kind := by
  cases e <;> rfl

end Element

/-! ## Looking up in a tree -/

namespace Node

/-- Neither does the kind of a node. -/
@[simp] theorem kind_relocate (n : Node) : (n.relocate move).kind = n.kind := by
  cases n
  rfl

/-- The place of a node is mapped. -/
@[simp] theorem span_relocate (n : Node) : (n.relocate move).span = move n.span := by
  cases n
  rfl

/-- The children of a mapped node are its children, mapped. -/
theorem children_relocate (n : Node) :
    (n.relocate move).children = n.children.map (Element.relocate move) := by
  rw [← Element.relocateAll_eq_map]
  cases n
  rfl

/-- The tokens of a mapped node are its tokens, mapped. -/
@[simp] theorem tokens_relocate (n : Node) :
    (n.relocate move).tokens = n.tokens.map (Token.relocate move) := by
  rw [Node.tokens, Node.tokens, children_relocate, List.filterMap_map, List.map_filterMap]
  exact List.filterMap_congr fun e _ => Element.token?_relocate move e

/-- The nodes right below a mapped node are those below the node, mapped. -/
@[simp] theorem nodes_relocate (n : Node) :
    (n.relocate move).nodes = n.nodes.map (Node.relocate move) := by
  rw [Node.nodes, Node.nodes, children_relocate, List.filterMap_map, List.map_filterMap]
  exact List.filterMap_congr fun e _ => Element.node?_relocate move e

/-- The same for the nodes of one kind. -/
@[simp] theorem nodesOf_relocate (n : Node) (kind : NodeKind) :
    (n.relocate move).nodesOf kind = (n.nodesOf kind).map (Node.relocate move) := by
  simp [Node.nodesOf, List.filter_map, Function.comp_def]

/-- The first token of a kind is the same one, mapped. -/
@[simp] theorem firstToken?_relocate (n : Node) (kind : TokenKind) :
    (n.relocate move).firstToken? kind = (n.firstToken? kind).map (Token.relocate move) := by
  rw [Node.firstToken?, Node.firstToken?, tokens_relocate, List.find?_map]
  rfl

/-- The first node of a kind is the same one, mapped. -/
@[simp] theorem firstNode?_relocate (n : Node) (kind : NodeKind) :
    (n.relocate move).firstNode? kind = (n.firstNode? kind).map (Node.relocate move) := by
  rw [Node.firstNode?, Node.firstNode?, nodes_relocate, List.find?_map]
  simp only [Function.comp_def, kind_relocate]

/-- What stands behind the first token of a kind is the same, mapped. -/
@[simp] theorem tokenAfter?_relocate (n : Node) (kind : TokenKind) :
    (n.relocate move).tokenAfter? kind = (n.tokenAfter? kind).map (Token.relocate move) := by
  rw [Node.tokenAfter?, Node.tokenAfter?, tokens_relocate, List.dropWhile_map, ← List.map_drop,
    List.head?_map]
  rfl

/-- The number of a node is the same, mapped. -/
@[simp] theorem numberToken?_relocate (n : Node) :
    (n.relocate move).numberToken? = n.numberToken?.map (Token.relocate move) :=
  tokenAfter?_relocate move n _

/-- Whether something was skipped in a node does not depend on places. -/
@[simp] theorem hasError_relocate (n : Node) : (n.relocate move).hasError = n.hasError := by
  simp [Node.hasError, List.any_map, Function.comp_def]

/-- What an import names is the same, mapped. -/
@[simp] theorem importTarget_relocate (n : Node) :
    (n.relocate move).importTarget = n.importTarget.map (Token.relocate move) := by
  rw [Node.importTarget, Node.importTarget, tokens_relocate, List.filter_map, ← List.map_reverse,
    List.dropWhile_map, ← List.map_reverse]
  rfl

/-- The status of an import does not depend on places. -/
@[simp] theorem importStatus_relocate (n : Node) :
    (n.relocate move).importStatus = n.importStatus := by
  rw [Node.importStatus, Node.importStatus, hasError_relocate, importTarget_relocate, List.any_map]
  rfl

/-- The modifiers of a node are the same, mapped. -/
@[simp] theorem modifiers_relocate (n : Node) :
    (n.relocate move).modifiers = n.modifiers.map (Token.relocate move) := by
  rw [Node.modifiers, Node.modifiers, tokens_relocate, List.filter_map]
  rfl

/-- A node over mapped children is the node over the children, mapped. -/
theorem covering_relocate {move : Span → Span} (carries : Span.Carries move) (kind : NodeKind)
    (children : List Element) (fallback : Span) :
    Node.covering kind (children.map (Element.relocate move)) (move fallback)
      = (Node.covering kind children fallback).relocate move := by
  have spans : (children.map (Element.relocate move)).map Element.span
      = (children.map Element.span).map move := by
    simp
  simp only [Node.covering, Node.relocate, spans, carries.unionAll?, Element.relocateAll_eq_map]
  cases Span.unionAll? (children.map Element.span) <;> rfl

end Node

/-! ## Reading mapped tokens -/

/-- Skipping does not look at places. -/
theorem skipTo_relocate (stops : TokenKind → Bool) (tokens : List Token) :
    skipTo stops (tokens.map (Token.relocate move))
      = ((skipTo stops tokens).1.map (Token.relocate move),
        (skipTo stops tokens).2.map (Token.relocate move)) := by
  fun_induction skipTo stops tokens with
  | case1 => rfl
  | case2 t rest here => exact if_pos here
  | case3 t rest going semicolon => exact (if_neg going).trans (if_pos semicolon)
  | case4 t rest going noSemicolon ih =>
    rw [List.map_cons, skipTo, ih]
    exact (if_neg going).trans (if_neg noSemicolon)

/-- A reading of tokens, and a reading of the mapped tokens. Each has its own reports
to begin with; all further ones are the same, mapped. -/
structure Relocated (base otherBase : List Diagnostic) (s other : ParseState) : Prop where
  pending : other.pending = s.pending.map (Token.relocate move)
  last : other.last = s.last.relocate move
  children : other.children = s.children.map (Element.relocate move)
  silent : other.silent = s.silent
  reports : ∃ added, s.reports = base ++ added
    ∧ other.reports = otherBase ++ added.map (Diagnostic.relocate move)

namespace Relocated

variable {move : Span → Span} {base otherBase : List Diagnostic}
  {s other inner otherInner : ParseState}

/-- The token ahead of one reading is the mapped token ahead of the other, also where both are
at their end. -/
theorem current_eq (related : Relocated move base otherBase s other) :
    other.current = s.current.relocate move := by
  rw [ParseState.current, ParseState.current, related.pending, related.last]
  cases s.pending <;> rfl

/-- The places of the two readings correspond. -/
theorem here_eq (related : Relocated move base otherBase s other) (carries : Span.Carries move) :
    other.here = move s.here := by
  rw [ParseState.here, related.current_eq]
  exact carries.emptyAtStart _

/-- Relocated readings find the same ahead, since tokens keep their kinds. -/
theorem ahead (related : Relocated move base otherBase s other) : Alike s other := by
  have otherAhead := related.pending
  cases split : s.pending with
  | nil =>
    rw [split] at otherAhead
    exact .ended split otherAhead
  | cons t rest =>
    rw [split] at otherAhead
    exact .next split otherAhead rfl

/-- Both readings take a token, or both have none to take. -/
theorem take (related : Relocated move base otherBase s other) :
    Relocated move base otherBase s.take other.take := by
  cases split : s.pending with
  | nil =>
    have otherSplit : other.pending = [] := by rw [related.pending, split, List.map_nil]
    rw [ParseState.take, split, ParseState.take, otherSplit]
    exact related
  | cons t rest =>
    have otherSplit : other.pending = t.relocate move :: rest.map (Token.relocate move) := by
      rw [related.pending, split, List.map_cons]
    rw [ParseState.take, split, ParseState.take, otherSplit]
    refine { related with pending := rfl, silent := rfl, children := ?_ }
    simp [ParseState.append, related.children]

/-- Both readings report a problem or neither does, as they are silent together. -/
theorem report (related : Relocated move base otherBase s other) (problem : Problem) (span : Span) :
    Relocated move base otherBase (s.report problem span) (other.report problem (move span)) := by
  rw [ParseState.report, ParseState.report, related.silent]
  split
  · exact related
  · obtain ⟨added, told, otherTold⟩ := related.reports
    refine { related with silent := rfl, reports := ⟨added ++ [⟨problem, span⟩], ?_, ?_⟩ }
    · simp [told]
    · simp [otherTold, Diagnostic.relocate]

/-- Both readings skip the same number of tokens. What was skipped is covered by mapped places,
and whether a semicolon ended it is told by the kinds. -/
theorem recover (related : Relocated move base otherBase s other) (carries : Span.Carries move)
    (stops : TokenKind → Bool) :
    Relocated move base otherBase (s.recover stops) (other.recover stops) := by
  have skipped : (((skipTo stops s.pending).1.map (Token.relocate move)).map Element.token)
      = ((skipTo stops s.pending).1.map Element.token).map (Element.relocate move) := by
    simp
  rw [ParseState.recover, ParseState.recover, related.here_eq carries, related.pending,
    skipTo_relocate]
  refine { related with pending := rfl, children := ?_, silent := ?_ }
  · simp only [ParseState.append, related.children, List.map_append, List.map_singleton,
      Element.relocate_node, ← Node.covering_relocate carries, skipped]
  · simp only [related.silent, List.any_map]
    rfl

/-- Corresponding children can be put in the place of the children. -/
theorem withChildren (related : Relocated move base otherBase s other)
    {children otherChildren : List Element}
    (same : otherChildren = children.map (Element.relocate move)) :
    Relocated move base otherBase { s with children := children }
      { other with children := otherChildren } :=
  { related with children := same }

/-- Reading mapped tokens is a simulation. -/
theorem simulation (carries : Span.Carries move) : Simulation (Relocated move base otherBase) where
  ahead related := related.ahead
  take related _ := related.take
  unexpected {s other} expected related := by
    have told := related.report (.unexpectedToken expected s.current.describe) s.current.span
    rw [ParseState.unexpected, ParseState.unexpected, related.current_eq]
    exact told
  missing what related := by
    rw [ParseState.missing, ParseState.missing, related.here_eq carries]
    exact related.report _ _
  recover _ related := related.recover carries _
  mark related := by
    apply related.withChildren
    simp [related.here_eq carries, related.children, ← Node.covering_relocate carries]
  opened related := related.withChildren rfl
  closed kind related below := by
    apply below.withChildren
    simp [related.here_eq carries, related.children, below.children,
      ← Node.covering_relocate carries]

/-- The declarations of mapped tokens are the declarations of the tokens, mapped. This is what
simulations give for all rules, once the steps correspond. -/
theorem declarations (carries : Span.Carries move)
    (related : Relocated move base otherBase s other) :
    Relocated move base otherBase (Rule.declarations s) (Rule.declarations other) := by
  apply (simulation carries).declarations _ related
  intro s other related ahead
  rw [related.pending, ahead, List.map_nil]

end Relocated

end MessageSchema
