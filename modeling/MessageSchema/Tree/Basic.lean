import MessageSchema.Token.Basic

/-!
# Concrete trees

A concrete tree keeps every significant token of a source in its place. What was
skipped for being out of place stands below `error` nodes: it can still be shown
to people, but no later stage reads a meaning out of it.
-/

namespace MessageSchema

/-- What a node of a concrete tree was read as. -/
inductive NodeKind where
  | document
  | importing
  | message
  | field
  | enum
  | variant
  | typeRef
  | error
deriving DecidableEq

namespace NodeKind

/-- Every kind of node, each once. -/
def all : List NodeKind :=
  [.document, .importing, .message, .field, .enum, .variant, .typeRef, .error]

/-- The name of a kind in exchanged data. -/
def name : NodeKind → String
  | .document => "Document"
  | .importing => "Import"
  | .message => "Message"
  | .field => "Field"
  | .enum => "Enum"
  | .variant => "Variant"
  | .typeRef => "TypeRef"
  | .error => "Error"

/-- The kind with a given name. -/
def ofName? (name : String) : Option NodeKind :=
  all.find? fun kind => kind.name == name

end NodeKind

mutual

/-- A child of a node. -/
inductive Element where
  | token (leaf : Token)
  | node (inner : Node)

/-- A node with its children in the order of the source. -/
structure Node where
  kind : NodeKind
  children : List Element
  span : Span

end

namespace Element

/-- The place of a child. -/
def span : Element → Span
  | .token t => t.span
  | .node n => n.span

/-- The child if it is a token. -/
def token? : Element → Option Token
  | .token t => some t
  | .node _ => none

/-- The child if it is a node. -/
def node? : Element → Option Node
  | .token _ => none
  | .node n => some n

/-- Whether a child is a token of the given kind. -/
def isToken (kind : TokenKind) (e : Element) : Bool :=
  e.token?.any (·.kind = kind)

end Element

namespace Node

/-- A node that covers its children; one without children covers `fallback`. -/
def covering (kind : NodeKind) (children : List Element) (fallback : Span) : Node :=
  ⟨kind, children, (Span.unionAll? (children.map Element.span)).getD fallback⟩

/-- The nodes right below a node. -/
def nodes (n : Node) : List Node :=
  n.children.filterMap Element.node?

/-- The tokens right below a node. -/
def tokens (n : Node) : List Token :=
  n.children.filterMap Element.token?

/-- The nodes of one kind right below a node. -/
def nodesOf (n : Node) (kind : NodeKind) : List Node :=
  n.nodes.filter (·.kind = kind)

/-- The first token of a kind right below a node. -/
def firstToken? (n : Node) (kind : TokenKind) : Option Token :=
  n.tokens.find? (·.kind = kind)

/-- The first node of a kind right below a node. -/
def firstNode? (n : Node) (kind : NodeKind) : Option Node :=
  n.nodes.find? (·.kind = kind)

/-- The token that follows the first one of a kind, both right below the node. -/
def tokenAfter? (n : Node) (kind : TokenKind) : Option Token :=
  ((n.tokens.dropWhile (·.kind ≠ kind)).drop 1).head?

/-- Whether something was skipped right below a node. -/
def hasError (n : Node) : Bool :=
  n.nodes.any (·.kind = .error)

end Node

mutual

/-- The tokens below a node, from left to right. -/
def Node.leaves : Node → List Token
  | ⟨_, children, _⟩ => Element.leavesOf children

/-- The tokens of a child. -/
def Element.leaves : Element → List Token
  | .token t => [t]
  | .node n => n.leaves

/-- The tokens of a list of children. -/
def Element.leavesOf : List Element → List Token
  | [] => []
  | e :: rest => e.leaves ++ Element.leavesOf rest

end

mutual

/-- A node and all nodes below it, parents before children. -/
def Node.preorder : Node → List Node
  | ⟨kind, children, span⟩ => ⟨kind, children, span⟩ :: Element.preorderOf children

/-- The nodes of a child. -/
def Element.preorder : Element → List Node
  | .token _ => []
  | .node n => n.preorder

/-- The nodes of a list of children. -/
def Element.preorderOf : List Element → List Node
  | [] => []
  | e :: rest => e.preorder ++ Element.preorderOf rest

end

/-- The leaves of two lists of children follow one another. -/
theorem Element.leavesOf_append (first second : List Element) :
    Element.leavesOf (first ++ second) = Element.leavesOf first ++ Element.leavesOf second := by
  induction first with
  | nil => rfl
  | cons e rest ih => simp [Element.leavesOf, ih]

/-- Tokens are their own leaves. -/
theorem Element.leavesOf_tokens (tokens : List Token) :
    Element.leavesOf (tokens.map Element.token) = tokens := by
  induction tokens with
  | nil => rfl
  | cons t rest ih => simp [Element.leavesOf, Element.leaves, ih]

/-- The nodes of two lists of children follow one another. -/
theorem Element.preorderOf_append (first second : List Element) :
    Element.preorderOf (first ++ second)
      = Element.preorderOf first ++ Element.preorderOf second := by
  induction first with
  | nil => rfl
  | cons e rest ih => simp [Element.preorderOf, ih]

/-- A child that is added at the end comes last in the walk, with everything below it. -/
theorem Element.preorderOf_concat (children : List Element) (child : Element) :
    Element.preorderOf (children ++ [child]) = Element.preorderOf children ++ child.preorder := by
  rw [Element.preorderOf_append, Element.preorderOf, Element.preorderOf, List.append_nil]

/-- A node is followed by the nodes below it, whatever place it was given. -/
theorem Element.preorder_covering (kind : NodeKind) (children : List Element) (fallback : Span) :
    (Element.node (Node.covering kind children fallback)).preorder
      = Node.covering kind children fallback :: Element.preorderOf children := by
  rw [Element.preorder, Node.covering, Node.preorder]

/-- There are no nodes below tokens. -/
theorem Element.preorderOf_tokens (tokens : List Token) :
    Element.preorderOf (tokens.map Element.token) = [] := by
  induction tokens with
  | nil => rfl
  | cons t rest ih => simp [Element.preorderOf, Element.preorder, ih]

end MessageSchema
