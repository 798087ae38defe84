import MessageSchema.Proofs.Relocation

/-!
# Moving a source to another place

A source that stands behind other lines keeps its columns, while its bytes and
lines are counted from further on. Everything that is read off a source moves
with it: tokens, trees, documents and findings. No stage compares a place with
anything but other places of the same source, so that moving comes out the same
before a stage and behind it.

For each definition that is moved there is one lemma here, which says that it
commutes with moving.
-/

namespace MessageSchema

/-- How far a source is moved: the bytes and the lines that stand before it. -/
structure Shift where
  bytes : Nat
  lines : Nat
deriving DecidableEq

namespace Shift

/-! ## Places -/

/-- A place further on: its column is the same, since whole lines stand before it. -/
def position (shift : Shift) (p : Position) : Position :=
  ⟨p.offset + shift.bytes, p.line + shift.lines, p.column⟩

/-- A span further on, with its line and its bytes counted from there. -/
def span (shift : Shift) (s : Span) : Span :=
  ⟨s.start + shift.bytes, s.stop + shift.bytes, s.line + shift.lines, s.column⟩

/-- A token further on. -/
def token (shift : Shift) (t : Token) : Token :=
  { t with span := shift.span t.span }

/-- A finding further on. -/
def diagnostic (shift : Shift) (d : Diagnostic) : Diagnostic :=
  { d with span := shift.span d.span }

variable (shift : Shift)

/-- A span between two places moves with them. -/
theorem between_position (first last : Position) :
    Span.between (shift.position first) (shift.position last)
      = shift.span (Span.between first last) := rfl

/-- The place at the start of a span moves with it. -/
theorem emptyAtStart_span (s : Span) :
    (shift.span s).emptyAtStart = shift.span s.emptyAtStart := rfl

/-- A union moves with its spans. Which of them starts first does not change, so the union takes
its line and column from the same one as before. -/
theorem union_span (s other : Span) :
    (shift.span s).union (shift.span other) = shift.span (s.union other) := by
  have order : other.start + shift.bytes < s.start + shift.bytes ↔ other.start < s.start := by omega
  by_cases first : other.start < s.start
  · simp [Span.union, span, order, first, Nat.add_max_add_right]
  · simp [Span.union, span, order, first, Nat.add_max_add_right]

/-- Moving keeps how the grammar combines places. -/
theorem carries_span : Span.Carries shift.span :=
  ⟨emptyAtStart_span shift, union_span shift⟩

/-- The fault of a token is found where the token is. -/
theorem finding?_token (t : Token) :
    (shift.token t).finding? = t.finding?.map shift.diagnostic :=
  Token.finding?_relocate shift.span t

/-- Moved findings are placed as they were. -/
theorem placedBefore_diagnostic (a b : Diagnostic) :
    (shift.diagnostic a).placedBefore (shift.diagnostic b) = a.placedBefore b := by
  rw [Bool.eq_iff_iff]
  simp [Diagnostic.placedBefore, diagnostic, span]

/-! ## Trees -/

mutual

/-- A node further on, with all that is below it. -/
def node (shift : Shift) : Node → Node
  | ⟨kind, children, span⟩ => ⟨kind, shift.elements children, shift.span span⟩

/-- A child further on. -/
def element (shift : Shift) : Element → Element
  | .token t => .token (shift.token t)
  | .node n => .node (shift.node n)

/-- Children further on, one by one. -/
def elements (shift : Shift) : List Element → List Element
  | [] => []
  | e :: rest => shift.element e :: shift.elements rest

end

mutual

/-- To move a node is to relocate it by moving its places. -/
theorem node_eq (shift : Shift) : ∀ n : Node, shift.node n = n.relocate shift.span
  | ⟨kind, children, span⟩ => by rw [node, Node.relocate, elements_eq shift children]

/-- The same for a child. -/
theorem element_eq (shift : Shift) : ∀ e : Element, shift.element e = e.relocate shift.span
  | .token _ => rfl
  | .node n => by rw [element, Element.relocate, node_eq shift n]

/-- The same for the children of a node. -/
theorem elements_eq (shift : Shift) :
    ∀ children : List Element, shift.elements children = Element.relocateAll shift.span children
  | [] => rfl
  | e :: rest => by rw [elements, Element.relocateAll, element_eq shift e, elements_eq shift rest]

end

/-- Moving a tree maps its places. -/
theorem node_eq_relocate : shift.node = Node.relocate shift.span :=
  funext (node_eq shift)

/-- The same, as an equation between the two ways to move a child. -/
theorem element_eq_relocate : shift.element = Element.relocate shift.span :=
  funext (element_eq shift)

/-- A node among the children is moved as a node. -/
theorem element_node (n : Node) : shift.element (.node n) = .node (shift.node n) := rfl

/-- Moving keeps the kind of a node. -/
theorem kind_node (n : Node) : (shift.node n).kind = n.kind := by
  rw [node_eq_relocate, Node.kind_relocate]

/-- The children of a moved node are its children, moved. -/
theorem children_node (n : Node) : (shift.node n).children = n.children.map shift.element := by
  rw [node_eq_relocate, element_eq_relocate, Node.children_relocate]

/-- A node moves with its place. -/
theorem span_node (n : Node) : (shift.node n).span = shift.span n.span := by
  rw [node_eq_relocate, Node.span_relocate]

/-- A child moves with its place. -/
theorem span_element (e : Element) : (shift.element e).span = shift.span e.span := by
  rw [element_eq_relocate, Element.span_relocate]

/-- A child is the moved node if it was a node. -/
theorem node?_element (e : Element) : (shift.element e).node? = e.node?.map shift.node := by
  rw [node_eq_relocate, element_eq_relocate, Element.node?_relocate]

/-- Whether a child is a token of a kind stays the same. -/
theorem isToken_element (kind : TokenKind) (e : Element) :
    (shift.element e).isToken kind = e.isToken kind := by
  rw [element_eq_relocate, Element.isToken_relocate]

/-- The tokens of a moved node are its tokens, moved. -/
theorem tokens_node (n : Node) : (shift.node n).tokens = n.tokens.map shift.token := by
  rw [node_eq_relocate, Node.tokens_relocate]
  rfl

/-- The nodes of a kind below a moved node are those below the node, moved. -/
theorem nodesOf_node (n : Node) (kind : NodeKind) :
    (shift.node n).nodesOf kind = (n.nodesOf kind).map shift.node := by
  rw [node_eq_relocate, Node.nodesOf_relocate]

/-- The first token of a kind is the same one, moved. -/
theorem firstToken?_node (n : Node) (kind : TokenKind) :
    (shift.node n).firstToken? kind = (n.firstToken? kind).map shift.token := by
  rw [node_eq_relocate, Node.firstToken?_relocate]
  rfl

/-- The first node of a kind is the same one, moved. -/
theorem firstNode?_node (n : Node) (kind : NodeKind) :
    (shift.node n).firstNode? kind = (n.firstNode? kind).map shift.node := by
  rw [node_eq_relocate, Node.firstNode?_relocate]

/-- What stands behind the first token of a kind is the same, moved. -/
theorem tokenAfter?_node (n : Node) (kind : TokenKind) :
    (shift.node n).tokenAfter? kind = (n.tokenAfter? kind).map shift.token := by
  rw [node_eq_relocate, Node.tokenAfter?_relocate]
  rfl

/-- Whether something was skipped in a node stays the same. -/
theorem hasError_node (n : Node) : (shift.node n).hasError = n.hasError := by
  rw [node_eq_relocate, Node.hasError_relocate]

/-! ## Documents -/

/-- An import further on. -/
def importing (shift : Shift) (i : Import) : Import :=
  { i with nameSpan := shift.span i.nameSpan, span := shift.span i.span }

/-- A type reference further on. -/
def typeRef (shift : Shift) (t : TypeRef) : TypeRef :=
  { t with span := shift.span t.span }

/-- A field further on, with its type and with the place of its tag. -/
def field (shift : Shift) (f : Field) : Field :=
  { f with
    nameSpan := shift.span f.nameSpan
    typeRef := f.typeRef.map shift.typeRef
    tagSpan := f.tagSpan.map shift.span
    span := shift.span f.span }

/-- A message further on, with its fields. -/
def message (shift : Shift) (m : Message) : Message :=
  ⟨m.name, shift.span m.nameSpan, m.fields.map shift.field, shift.span m.span⟩

/-- A variant further on, with the place of its value. -/
def variant (shift : Shift) (v : Variant) : Variant :=
  { v with
    nameSpan := shift.span v.nameSpan
    valueSpan := v.valueSpan.map shift.span
    span := shift.span v.span }

/-- An enum further on, with its variants. -/
def enum (shift : Shift) (e : Enum) : Enum :=
  ⟨e.name, shift.span e.nameSpan, e.variants.map shift.variant, shift.span e.span⟩

/-- A declaration with every place in it moved. -/
def declaration (shift : Shift) : Declaration → Declaration
  | .importing i => .importing (shift.importing i)
  | .message m => .message (shift.message m)
  | .enum e => .enum (shift.enum e)

/-- A name further on. -/
def namePart (shift : Shift) (name : NamePart) : NamePart :=
  ⟨name.text, shift.span name.span⟩

/-- The place where a missing name stands moves with the node. It is the start of the child
behind the keyword, a place behind the keyword itself, or the start of the node; the same one of
the three as before. -/
theorem placeAfter_node (n : Node) (kind : TokenKind) :
    (shift.node n).placeAfter kind = shift.span (n.placeAfter kind) := by
  have cut : (shift.node n).children.dropWhile (!·.isToken kind)
      = (n.children.dropWhile (!·.isToken kind)).map shift.element := by
    rw [children_node, List.dropWhile_map]
    simp only [Function.comp_def, isToken_element]
  rw [Node.placeAfter, Node.placeAfter, cut]
  cases n.children.dropWhile (!·.isToken kind) with
  | nil => simp [span_node, emptyAtStart_span]
  | cons e rest =>
    cases rest with
    | cons next others => simp [span_element, emptyAtStart_span]
    | nil =>
      cases e with
      | token t => rfl
      | node inner => simp [element_node, span_node, emptyAtStart_span]

/-- The name behind a keyword moves with the node, whether it is there or missing. -/
theorem nameAfter_node (n : Node) (word : Keyword) :
    (shift.node n).nameAfter word = shift.namePart (n.nameAfter word) := by
  rw [Node.nameAfter, Node.nameAfter, tokenAfter?_node, placeAfter_node]
  cases n.tokenAfter? (.keyword word) with
  | none => rfl
  | some t =>
    by_cases identifier : t.kind = .identifier
    · simp [identifier, token, namePart]
    · simp [identifier, token, namePart]

/-- What an import names is the same, moved. -/
theorem importTarget_node (n : Node) :
    (shift.node n).importTarget = n.importTarget.map shift.token := by
  rw [node_eq_relocate, Node.importTarget_relocate]
  rfl

/-- The name of an import moves with the node. A dotted name covers its tokens, and covering
keeps up with moving. -/
theorem importName_node (n : Node) :
    (shift.node n).importName = shift.namePart n.importName := by
  rw [Node.importName, Node.importName, importTarget_node, placeAfter_node]
  cases n.importTarget with
  | nil => rfl
  | cons first rest =>
    by_cases quoted : first.kind = .string
    · simp [quoted, token, namePart]
    · have spans := shift.carries_span.foldl_union first.span (rest.map (·.span))
      simp only [List.map_map, Function.comp_def] at spans
      simp [quoted, token, namePart, ← spans, Function.comp_def]

/-- The import that a moved node denotes is the one of the node, moved. -/
theorem toImport_node (n : Node) : (shift.node n).toImport = shift.importing n.toImport := by
  have status : (shift.node n).importStatus = n.importStatus := by
    rw [node_eq_relocate, Node.importStatus_relocate]
  rw [Node.toImport, Node.toImport, importName_node, status, span_node]
  rfl

/-- The type of a field is the same, moved. Its text comes from lexemes, which do not move. -/
theorem fieldType_node (n : Node) : (shift.node n).fieldType = n.fieldType.map shift.typeRef := by
  rw [Node.fieldType, Node.fieldType, firstNode?_node]
  cases n.firstNode? .typeRef with
  | none => rfl
  | some t =>
    have texts : (t.tokens.map shift.token).map (·.lexeme) = t.tokens.map (·.lexeme) := by
      rw [List.map_map]
      rfl
    simp only [Option.map_some, hasError_node, tokens_node, texts, span_node]
    cases t.hasError <;> rfl

/-- The field that a moved node denotes is the one of the node, moved. Modifier and tag are told
by kinds and lexemes, and only the place of the tag moves. -/
theorem toField_node (n : Node) : (shift.node n).toField = shift.field n.toField := by
  have modifier : (shift.node n).modifiers.head?.map (Node.modifierOf ·.kind)
      = n.modifiers.head?.map (Node.modifierOf ·.kind) := by
    rw [node_eq_relocate, Node.modifiers_relocate, List.head?_map, Option.map_map]
    rfl
  have tag : (shift.node n).numberToken? = n.numberToken?.map shift.token :=
    tokenAfter?_node shift n _
  simp only [Node.toField, field, nameAfter_node, modifier, fieldType_node, tag, span_node,
    Option.bind_map, Option.map_map]
  rfl

/-- The message that a moved node denotes is the one of the node, moved. -/
theorem toMessage_node (n : Node) : (shift.node n).toMessage = shift.message n.toMessage := by
  simp only [Node.toMessage, message, nameAfter_node, nodesOf_node, span_node, List.map_map,
    Function.comp_def, toField_node]
  rfl

/-- The name of a variant moves with the node. -/
theorem variantName_node (n : Node) :
    (shift.node n).variantName = shift.namePart n.variantName := by
  rw [Node.variantName, Node.variantName, firstToken?_node, span_node]
  cases n.firstToken? .identifier <;> rfl

/-- The variant that a moved node denotes is the one of the node, moved. -/
theorem toVariant_node (n : Node) : (shift.node n).toVariant = shift.variant n.toVariant := by
  have value : (shift.node n).numberToken? = n.numberToken?.map shift.token :=
    tokenAfter?_node shift n _
  simp only [Node.toVariant, variant, variantName_node, value, span_node, Option.bind_map,
    Option.map_map]
  rfl

/-- The enum that a moved node denotes is the one of the node, moved. -/
theorem toEnum_node (n : Node) : (shift.node n).toEnum = shift.enum n.toEnum := by
  simp only [Node.toEnum, enum, nameAfter_node, nodesOf_node, span_node, List.map_map,
    Function.comp_def, toVariant_node]
  rfl

/-- The declaration of a moved node is the declaration, moved. -/
theorem toDeclaration?_node (n : Node) :
    (shift.node n).toDeclaration? = n.toDeclaration?.map shift.declaration := by
  rw [Node.toDeclaration?, Node.toDeclaration?, kind_node, toImport_node, toMessage_node,
    toEnum_node]
  cases n.kind <;> rfl

end Shift

end MessageSchema
