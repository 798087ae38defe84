import MessageSchema.Tree.Basic

/-!
# Phrases

A phrase is a derivation of the grammar whose leaves are tokens: one type for
each production, with a field for each symbol on its right side. A leaf carries
the proof of its own kind, so that every value of a phrase type is well formed.

A phrase gives the tokens it was read from and the node that stands for it in a
concrete tree. Nothing here mentions the rules that read phrases.
-/

namespace MessageSchema

/-- A token of one kind. -/
abbrev Leaf (kind : TokenKind) := { t : Token // t.kind = kind }

/-- A number literal. -/
abbrev NumberLeaf := { t : Token // t.kind.isNumber = true }

/-- A keyword that qualifies a field. -/
abbrev ModifierLeaf := { t : Token // t.kind.isModifier = true }

namespace Phrase

/-- A node over children of which there is at least one. -/
def nodeOver (kind : NodeKind) (elements : List Element) : Node :=
  Node.covering kind elements .origin

/-- A node that has children covers them, whatever the fallback. -/
theorem covering_eq_nodeOver {elements : List Element} (kind : NodeKind) (fallback : Span)
    (children : elements ≠ []) : Node.covering kind elements fallback = nodeOver kind elements := by
  cases elements with
  | nil => exact absurd rfl children
  | cons e rest => rfl

/-- An identifier, and any number of dots with an identifier behind each. -/
structure Dotted where
  first : Leaf .identifier
  more : List (Leaf (.punct .dot) × Leaf .identifier)

namespace Dotted

/-- The tokens behind the first identifier. -/
def tailTokens (more : List (Leaf (.punct .dot) × Leaf .identifier)) : List Token :=
  more.flatMap fun pair => [pair.1.val, pair.2.val]

/-- The tokens of a dotted name. -/
def tokens (d : Dotted) : List Token :=
  d.first.val :: tailTokens d.more

/-- A dotted name as the type of a field. -/
def node (d : Dotted) : Node :=
  nodeOver .typeRef (d.tokens.map .token)

end Dotted

/-- An optional number behind an equals sign, and the semicolon. -/
structure Ending where
  number : Option (Leaf (.punct .equals) × NumberLeaf)
  semicolon : Leaf (.punct .semicolon)

/-- The tokens of an ending, with the number or without it. -/
def Ending.tokens (e : Ending) : List Token :=
  e.number.elim [] (fun pair => [pair.1.val, pair.2.val]) ++ [e.semicolon.val]

/-- What an import names. -/
inductive Target where
  | dotted (name : Dotted)
  | quoted (literal : Leaf .string)

/-- The tokens of a target. -/
def Target.tokens : Target → List Token
  | .dotted name => name.tokens
  | .quoted literal => [literal.val]

/-- The keyword, what is imported, and the semicolon. -/
structure Importing where
  keyword : Leaf (.keyword .importing)
  target : Target
  semicolon : Leaf (.punct .semicolon)

namespace Importing

/-- The tokens of an import. -/
def tokens (i : Importing) : List Token :=
  i.keyword.val :: i.target.tokens ++ [i.semicolon.val]

/-- The node of an import, whose children are all tokens. -/
def node (i : Importing) : Node :=
  nodeOver .importing (i.tokens.map .token)

end Importing

/-- The modifiers and the keyword, the name, perhaps a colon with a type, and the ending. -/
structure Field where
  modifiers : List ModifierLeaf
  keyword : Leaf (.keyword .field)
  name : Leaf .identifier
  type : Option (Leaf (.punct .colon) × Dotted)
  ending : Ending

namespace Field

/-- The colon and the tokens of the type, if there is one. -/
def typeTokens (f : Field) : List Token :=
  f.type.elim [] fun pair => pair.1.val :: pair.2.tokens

/-- The type is the only part of a field with a node of its own. -/
def typeElements (f : Field) : List Element :=
  f.type.elim [] fun pair => [.token pair.1.val, .node pair.2.node]

/-- The tokens of a field. -/
def tokens (f : Field) : List Token :=
  f.modifiers.map Subtype.val ++ f.keyword.val :: f.name.val :: f.typeTokens ++ f.ending.tokens

/-- The children of a field. Its type is a node, all others are tokens. -/
def elements (f : Field) : List Element :=
  f.modifiers.map (fun m => .token m.val)
    ++ .token f.keyword.val :: .token f.name.val :: f.typeElements
    ++ f.ending.tokens.map .token

/-- The node of a field. -/
def node (f : Field) : Node :=
  nodeOver .field f.elements

end Field

/-- The name and the ending. -/
structure Variant where
  name : Leaf .identifier
  ending : Ending

namespace Variant

/-- The tokens of a variant. -/
def tokens (v : Variant) : List Token :=
  v.name.val :: v.ending.tokens

/-- The node of a variant, whose children are all tokens. -/
def node (v : Variant) : Node :=
  nodeOver .variant (v.tokens.map .token)

end Variant

/-- A keyword, a name, and items between braces. -/
structure Block (word : Keyword) (Item : Type) where
  keyword : Leaf (.keyword word)
  name : Leaf .identifier
  opening : Leaf (.punct .leftBrace)
  items : List Item
  closing : Leaf (.punct .rightBrace)

namespace Block

variable {word : Keyword} {Item : Type}

/-- The tokens of a block, if each item has those that are given for it. -/
def tokens (itemTokens : Item → List Token) (b : Block word Item) : List Token :=
  b.keyword.val :: b.name.val :: b.opening.val :: b.items.flatMap itemTokens ++ [b.closing.val]

/-- The children of a block: its items are nodes, all others are tokens. -/
def elements (itemNode : Item → Node) (b : Block word Item) : List Element :=
  .token b.keyword.val :: .token b.name.val :: .token b.opening.val
    :: b.items.map (fun item => .node (itemNode item)) ++ [.token b.closing.val]

end Block

/-- One of the three declarations. -/
inductive Declaration where
  | importing (phrase : Importing)
  | message (phrase : Block .message Field)
  | enum (phrase : Block .enum Variant)

namespace Declaration

/-- The tokens of a declaration. -/
def tokens : Declaration → List Token
  | .importing i => i.tokens
  | .message b => b.tokens Field.tokens
  | .enum b => b.tokens Variant.tokens

/-- The node of a declaration, of the kind that its keyword makes it. -/
def node : Declaration → Node
  | .importing i => i.node
  | .message b => nodeOver .message (b.elements Field.node)
  | .enum b => nodeOver .enum (b.elements Variant.node)

end Declaration

end Phrase

end MessageSchema
