import MessageSchema.Document.Walk
import MessageSchema.Proofs.Productions

/-!
# Which nodes the parts of a document are read from

Every part of a document that has a name is read from one node of the tree, and a node
of the right kind gives one such part wherever it stands. This holds only because the
tree has no node in a place where the document does not look for it: below a message
stand fields, below an enum variants, below a field its type, and nothing but skipped
tokens stands below what was skipped. So the named parts in the order of a walk are the
nodes of the tree, parents before children, with those left out that name nothing.
-/

namespace MessageSchema

/-- The named part of a document that is read from a node. -/
def Node.part? (n : Node) : Option Part :=
  match n.kind with
  | .importing => some (.importing n.toImport)
  | .message => some (.message n.toMessage)
  | .field => some (.field n.toField)
  | .enum => some (.enum n.toEnum)
  | .variant => some (.variant n.toVariant)
  | .document | .typeRef | .error => none

/-- The name that a part has, with its place. Documents and types have none of their own. -/
def Part.name? : Part → Option NamePart
  | .importing i => some ⟨i.name, i.nameSpan⟩
  | .message m => some ⟨m.name, m.nameSpan⟩
  | .field f => some ⟨f.name, f.nameSpan⟩
  | .enum e => some ⟨e.name, e.nameSpan⟩
  | .variant v => some ⟨v.name, v.nameSpan⟩
  | .document _ | .typeRef _ => none

/-! ## What stands right below a node -/

namespace Shape

variable {m : Node} {children : List Element}

/-- Tokens are no nodes. -/
theorem node_not_mem_tokens {tokens : List Token} : .node m ∉ tokens.map Element.token := by
  simp

/-- Where a statement is closed, the only node there can be is what was skipped. -/
theorem Closed.inner (closed : Closed children) (member : .node m ∈ children) :
    m.kind = .error := by
  cases closed with
  | semicolon mark => simp at member
  | skipped error => simp_all

/-- The same in an ending. -/
theorem Ending.inner (ending : Ending children) (member : .node m ∈ children) :
    m.kind = .error := by
  cases ending with
  | plain closed => exact closed.inner member
  | number mark number closed => exact closed.inner (by simpa using member)
  | broken mark error => simp_all

/-- Behind the name of a field there are no nodes but its type and what was skipped. -/
theorem Detail.inner (detail : Detail children) (member : .node m ∈ children) :
    m.kind = .typeRef ∨ m.kind = .error := by
  cases detail with
  | untyped ending => exact .inr (ending.inner member)
  | typed mark kind ending =>
    simp only [List.mem_cons, reduceCtorEq, Element.node.injEq, false_or] at member
    rcases member with rfl | inside
    · exact .inl kind
    · exact .inr (ending.inner inside)
  | broken mark error => simp_all

/-- The same for the whole field, whose other children are tokens. -/
theorem Field.inner (field : Field children) (member : .node m ∈ children) :
    m.kind = .typeRef ∨ m.kind = .error := by
  obtain ⟨-, unmodified⟩ := field
  have inside := (List.mem_append.mp member).resolve_left node_not_mem_tokens
  cases unmodified with
  | named word identifier detail => exact detail.inner (by simpa using inside)
  | unnamed word detail => exact detail.inner (by simpa using inside)
  | broken error => simp_all

/-- Below a type there is no node but the empty one that marks it as broken off. -/
theorem TypeRef.inner (type : TypeRef children) (member : .node m ∈ children) :
    m.kind = .error := by
  cases type with
  | whole dotted => exact absurd member node_not_mem_tokens
  | broken dotted error empty =>
    have last := (List.mem_append.mp member).resolve_left node_not_mem_tokens
    simp_all

/-- Below an import there is no node but what was skipped. -/
theorem Import.inner (shape : Import children) (member : .node m ∈ children) :
    m.kind = .error := by
  obtain ⟨word, imported⟩ := shape
  have behind := (List.mem_cons.mp member).resolve_left nofun
  cases imported with
  | closed names closed =>
    exact closed.inner ((List.mem_append.mp behind).resolve_left node_not_mem_tokens)
  | broken dotted error =>
    have last := (List.mem_append.mp behind).resolve_left node_not_mem_tokens
    simp_all

/-- Below a variant there is no node but what was skipped. -/
theorem Variant.inner (variant : Variant children) (member : .node m ∈ children) :
    m.kind = .error := by
  obtain ⟨identifier, ending⟩ := variant
  exact ending.inner ((List.mem_cons.mp member).resolve_left nofun)

/-- Among the items of a block there are no nodes but items and what was skipped, by induction
on the items. -/
theorem Items.inner {item : NodeKind} (items : Items item children) (member : .node m ∈ children) :
    m.kind = item ∨ m.kind = .error := by
  induction items with
  | unclosed => exact absurd member List.not_mem_nil
  | closed mark => simp at member
  | item kind items ih =>
    rcases List.mem_cons.mp member with same | later
    · cases same
      exact kind
    · exact ih later

/-- The same for the body with its braces. -/
theorem Body.inner {item : NodeKind} (body : Body item children) (member : .node m ∈ children) :
    m.kind = item ∨ m.kind = .error := by
  cases body with
  | opened mark items => exact items.inner (by simpa using member)
  | unopened items => exact items.inner member
  | skipped error => simp_all

/-- The same for the block with its keyword and its name. -/
theorem Block.inner {word : Keyword} {item : NodeKind} (block : Block word item children)
    (member : .node m ∈ children) : m.kind = item ∨ m.kind = .error := by
  cases block with
  | named isKeyword identifier body => exact body.inner (by simpa using member)
  | unnamed isKeyword body => exact body.inner (by simpa using member)

/-- Below a document there are declarations and what was skipped. -/
theorem Document.inner (document : Document children) (member : .node m ∈ children) :
    m.kind = .importing ∨ m.kind = .message ∨ m.kind = .enum ∨ m.kind = .error := by
  cases document with
  | @intro nodes last kinds ended =>
    have inside : m ∈ nodes := by simpa using member
    simpa using kinds m inside

/-- What was skipped has no nodes below it. -/
theorem Skipped.inner (skipped : Skipped children) : .node m ∉ children := by
  obtain ⟨-⟩ := skipped
  exact node_not_mem_tokens

end Shape

/-! ## The nodes of a tree in their order -/

/-- A walk of children goes into the nodes among them, and tokens add nothing to it. -/
theorem Element.preorderOf_eq (children : List Element) :
    preorderOf children = (children.filterMap Element.node?).flatMap Node.preorder := by
  induction children with
  | nil => rfl
  | cons e rest ih =>
    cases e with
    | token t => exact ih
    | node n =>
      rw [preorderOf, ih]
      rfl

/-- A walk of a node begins with the node and goes on into those below it. -/
theorem Node.preorder_eq (n : Node) : n.preorder = n :: n.nodes.flatMap Node.preorder := by
  obtain ⟨kind, children, span⟩ := n
  rw [preorder, Element.preorderOf_eq]
  rfl

/-- The kinds of the nodes that can stand right below a node of a kind. -/
def NodeKind.below : NodeKind → List NodeKind
  | .document => [.importing, .message, .enum, .error]
  | .message => [.field, .error]
  | .enum => [.variant, .error]
  | .field => [.typeRef, .error]
  | .importing | .variant | .typeRef => [.error]
  | .error => []

/-- A node of any shape has only nodes of these kinds right below it. -/
theorem Shape.Of.inner {kind : NodeKind} {children : List Element} {m : Node}
    (shape : Shape.Of kind children) (member : .node m ∈ children) : m.kind ∈ kind.below := by
  cases kind with
  | document => simpa [NodeKind.below] using Document.inner shape member
  | importing => simpa [NodeKind.below] using Import.inner shape member
  | message => simpa [NodeKind.below] using Block.inner shape member
  | field => simpa [NodeKind.below] using Field.inner shape member
  | enum => simpa [NodeKind.below] using Block.inner shape member
  | variant => simpa [NodeKind.below] using Variant.inner shape member
  | typeRef => simpa [NodeKind.below] using TypeRef.inner shape member
  | error => exact absurd member (Skipped.inner shape)

/-- A tree in layers: each node has only nodes of the right kinds below it. -/
def Node.Layered (n : Node) : Prop :=
  ∀ m ∈ n.preorder, ∀ inner ∈ m.nodes, inner.kind ∈ m.kind.below

/-- A node that was gathered by its rule, or that holds skipped tokens. -/
theorem Node.Gathered.inner {n m : Node} (gathered : n.Gathered) (member : m ∈ n.nodes) :
    m.kind ∈ n.kind.below := by
  have child := mem_children_of_mem_nodes member
  cases gathered with
  | skipped tokens place => exact absurd child Shape.node_not_mem_tokens
  | @built kind rule s builds fresh =>
    obtain ⟨added, children, shape⟩ := builds.gathers
    rw [fresh, List.nil_append] at children
    exact shape.inner (children ▸ child)

/-- The tree of any tokens is in layers. -/
theorem parse_layered (tokens : List Token) : (parse tokens).tree.Layered := by
  let read := Rule.declarations (.start tokens)
  have headed : Headed _ read.children := Rule.declarations_headed (s := .start tokens) .none_met
  have gathered : ∀ n ∈ Element.preorderOf read.children, n.Gathered :=
    (Rule.declarations_run (.start tokens)).gathered fun n member => absurd member List.not_mem_nil
  intro n member m among
  rw [parse, documentNode, Node.preorder, List.mem_cons, Element.preorderOf_concat,
    List.mem_append] at member
  rcases member with rfl | below | last
  · obtain ⟨nodes, children, kinds⟩ := headed.exists_nodes
    have child : m ∈ read.children.filterMap Element.node? := by
      rwa [← nodes_documentNode read.children read.last]
    rw [children, List.filterMap_map] at child
    exact kinds m (by simpa [Element.node?] using child)
  · exact (gathered n below).inner among
  · exact absurd last List.not_mem_nil

namespace Node.Layered

variable {n m : Node}

/-- In a layered tree the nodes below another one are of the kinds that it allows. -/
theorem inner (layered : n.Layered) (member : m ∈ n.nodes) : m.kind ∈ n.kind.below :=
  layered n n.self_mem_preorder m member

/-- What is below a layered node is layered. -/
theorem child (layered : n.Layered) (member : m ∈ n.nodes) : m.Layered :=
  fun inner among => layered inner (preorder_of_mem_nodes member inner among)

/-- No part is read from what was skipped, nor from anything below it: there is nothing below
it. -/
theorem parts_error (layered : n.Layered) (kind : n.kind = .error) :
    n.preorder.filterMap Node.part? = [] := by
  have none_below : n.nodes = [] := by
    apply List.eq_nil_iff_forall_not_mem.mpr
    intro m member
    have among := layered.inner member
    rw [kind] at among
    exact List.not_mem_nil among
  rw [preorder_eq, none_below, List.flatMap_nil, List.filterMap_cons_none (by rw [part?, kind])]
  rfl

/-- A node below which only skipped tokens stand gives at most its own part. -/
theorem parts_leaf (layered : n.Layered) (leaf : n.kind.below = [.error]) :
    n.preorder.filterMap Node.part? = n.part?.toList := by
  have nothing : (n.nodes.flatMap Node.preorder).filterMap Node.part? = [] := by
    rw [List.filterMap_flatMap, List.flatMap_eq_nil_iff]
    intro m member
    have among := layered.inner member
    rw [leaf, List.mem_singleton] at among
    exact (layered.child member).parts_error among
  rw [preorder_eq, List.filterMap_cons, nothing]
  cases n.part? <;> rfl

/-- No part is read from a type, since only what was skipped can stand below it. -/
theorem parts_typeRef (layered : n.Layered) (kind : n.kind = .typeRef) :
    n.preorder.filterMap Node.part? = [] := by
  rw [layered.parts_leaf (kind ▸ rfl), part?, kind]
  rfl

/-- From a variant its own part is read and no other. -/
theorem parts_variant (layered : n.Layered) (kind : n.kind = .variant) :
    n.preorder.filterMap Node.part? = [.variant n.toVariant] := by
  rw [layered.parts_leaf (kind ▸ rfl), part?, kind]
  rfl

/-- From an import its own part is read and no other. -/
theorem parts_import (layered : n.Layered) (kind : n.kind = .importing) :
    n.preorder.filterMap Node.part? = [.importing n.toImport] := by
  rw [layered.parts_leaf (kind ▸ rfl), part?, kind]
  rfl

/-- From a field its own part is read and no other: types name nothing of their own. -/
theorem parts_field (layered : n.Layered) (kind : n.kind = .field) :
    n.preorder.filterMap Node.part? = [.field n.toField] := by
  have nothing : (n.nodes.flatMap Node.preorder).filterMap Node.part? = [] := by
    rw [List.filterMap_flatMap, List.flatMap_eq_nil_iff]
    intro m member
    have among := layered.inner member
    rw [kind] at among
    rcases List.mem_pair.mp among with type | error
    · exact (layered.child member).parts_typeRef type
    · exact (layered.child member).parts_error error
  rw [preorder_eq, List.filterMap_cons, nothing, part?, kind]

/-- The items below a declaration, where nothing else stands but skipped tokens. -/
theorem parts_items (layered : n.Layered) {item : NodeKind} {part : Node → Part}
    (below : n.kind.below = [item, .error])
    (parts : ∀ m : Node, m.Layered → m.kind = item → m.preorder.filterMap Node.part? = [part m]) :
    (n.nodes.flatMap Node.preorder).filterMap Node.part? = (n.nodesOf item).map part := by
  have each : ∀ m ∈ n.nodes, m.preorder.filterMap Node.part?
      = if m.kind = item then [part m] else [] := by
    intro m member
    have among := layered.inner member
    rw [below, List.mem_pair] at among
    split
    · next same => exact parts m (layered.child member) same
    · next other => exact (layered.child member).parts_error (among.resolve_left other)
  rw [List.filterMap_flatMap, List.flatMap_congr each, nodesOf]
  clear each
  induction n.nodes with
  | nil => rfl
  | cons m rest ih =>
    rw [List.flatMap_cons, ih, List.filter_cons]
    by_cases same : m.kind = item <;> simp [same]

/-- From a message its own part is read, and then those of its fields in their order. What was
skipped between them adds none. -/
theorem parts_message (layered : n.Layered) (kind : n.kind = .message) :
    n.preorder.filterMap Node.part?
      = .message n.toMessage :: n.toMessage.fields.map Part.field := by
  have items := layered.parts_items (kind ▸ rfl) fun m => parts_field
  rw [preorder_eq, List.filterMap_cons, items, part?, kind, toMessage, List.map_map]
  rfl

/-- From an enum its own part is read, and then those of its variants in their order. -/
theorem parts_enum (layered : n.Layered) (kind : n.kind = .enum) :
    n.preorder.filterMap Node.part? = .enum n.toEnum :: n.toEnum.variants.map Part.variant := by
  have items := layered.parts_items (kind ▸ rfl) fun m => parts_variant
  rw [preorder_eq, List.filterMap_cons, items, part?, kind, toEnum, List.map_map]
  rfl

end Node.Layered

/-! ## The named parts of a document -/

/-- The named parts in a walk through a declaration: itself and its items.

Proof: by the kind of the declaration. The only parts without a name are the references, each
right behind its field. -/
theorem Declaration.named_walk (declaration : Declaration) :
    declaration.walk.filter (·.name?.isSome)
      = match declaration with
        | .importing i => [.importing i]
        | .message m => .message m :: m.fields.map Part.field
        | .enum e => .enum e :: e.variants.map Part.variant := by
  cases declaration with
  | importing i => rfl
  | message m =>
    have fields : (m.fields.flatMap Field.walk).filter (·.name?.isSome)
        = m.fields.map Part.field := by
      rw [List.filter_flatMap, List.map_eq_flatMap]
      apply List.flatMap_congr
      intro f _
      rw [Field.walk, Part.children]
      cases f.typeRef <;> rfl
    exact congrArg (Part.message m :: ·) fields
  | enum e =>
    have variants : (e.variants.map Part.variant).filter (·.name?.isSome)
        = e.variants.map Part.variant := by
      apply List.filter_eq_self.mpr
      intro p member
      obtain ⟨v, -, rfl⟩ := List.mem_map.mp member
      rfl
    exact congrArg (Part.enum e :: ·) variants

/-- A declaration is read from its node and the nodes below it, and from a node of skipped
tokens nothing is. -/
theorem Node.Layered.parts_declaration {n : Node} (layered : n.Layered)
    (kind : n.kind ∈ NodeKind.document.below) :
    n.preorder.filterMap Node.part?
      = n.toDeclaration?.toList.flatMap fun declaration =>
        declaration.walk.filter (·.name?.isSome) := by
  simp only [NodeKind.below, List.mem_cons, List.not_mem_nil, or_false] at kind
  rw [Node.toDeclaration?]
  rcases kind with kind | kind | kind | kind
  · rw [layered.parts_import kind, kind]
    rfl
  · rw [layered.parts_message kind, kind, Option.toList_some, List.flatMap_singleton,
      Declaration.named_walk]
  · rw [layered.parts_enum kind, kind, Option.toList_some, List.flatMap_singleton,
      Declaration.named_walk]
  · rw [layered.parts_error kind, kind]
    rfl

/-- The named parts of a document are read from the nodes of the tree, in their order. -/
theorem Node.Layered.parts {tree : Node} (layered : tree.Layered) (kind : tree.kind = .document)
    (name : String) :
    tree.preorder.filterMap Node.part?
      = (tree.toDocument name).walk.filter (·.name?.isSome) := by
  have each : ∀ n ∈ tree.nodes, n.preorder.filterMap Node.part?
      = n.toDeclaration?.toList.flatMap fun declaration =>
        declaration.walk.filter (·.name?.isSome) :=
    fun n member => (layered.child member).parts_declaration (kind ▸ layered.inner member)
  have declarations : (tree.nodes.flatMap Node.preorder).filterMap Node.part?
      = (tree.nodes.filterMap Node.toDeclaration?).flatMap fun declaration =>
        declaration.walk.filter (·.name?.isSome) := by
    rw [List.filterMap_flatMap, List.flatMap_congr each, List.filterMap_eq_flatMap_toList,
      List.flatMap_assoc]
  rw [Node.preorder_eq, List.filterMap_cons_none (by rw [Node.part?, kind]), declarations,
    Document.walk, List.filter_cons_of_neg Bool.false_ne_true, List.filter_flatMap]
  rfl

end MessageSchema
