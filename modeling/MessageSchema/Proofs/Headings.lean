import MessageSchema.Proofs.Apart
import MessageSchema.Proofs.Innermost
import MessageSchema.Proofs.MissingNames
import MessageSchema.Proofs.Resolution

/-!
# Names stand in front

A part that has a name and something below it is written with its name in front: the
name of a message or enum before the items, that of a field before the type. Where a
name is missing, its place is at the start of what comes next. So no child of a part
begins before the name of the part has ended, on malformed sources too, since a node
breaks off only behind what its production has in front.

Every token has width, and so has a name that is not empty and every reference. A cursor
on a name is therefore about the part that is named, and one on a reference about the
reference.

All this is read off the nodes of a tree and then carried over to resolved documents:
resolution takes a part to a part with the same name and place, and children to children.
-/

namespace MessageSchema

/-! ## Nodes -/

/-- A node that holds its children in order and in the shape of its kind, with tokens
that have width. -/
structure Node.Legible (n : Node) : Prop where
  inPlace : n.InPlace
  shape : n.InShape
  wide : ∀ t ∈ n.tokens, t.span.start < t.span.stop

/-- The tokens below the root of a tree were read from the source, so they have width. -/
theorem parseSource_wide (source : String) :
    ∀ n ∈ (parseSource source).tree.preorder, n.kind ≠ .document →
      ∀ t ∈ n.tokens, t.span.start < t.span.stop := by
  let read := Rule.declarations (.start (tokenize source))
  have leaves : Element.leavesOf read.children = significant (tokenize source) := by
    have kept := (Rule.declarations_run (.start (tokenize source))).leaves_append_pending
    rwa [Rule.declarations_pending, List.append_nil] at kept
  intro n member inner t among
  rw [parseSource, parse, documentNode, Node.preorder, Element.preorderOf_concat, Element.preorder,
    List.append_nil, List.mem_cons] at member
  rcases member with rfl | below
  · exact absurd rfl inner
  · have leaf : t ∈ Element.leavesOf read.children :=
      Element.leavesOf_of_mem_preorderOf (Node.tokens_subset_leaves among) read.children below
    exact (significant_read source t (leaves ▸ leaf)).start_lt_stop

/-- A node of a parsed tree that is neither the root nor what was skipped holds its children in
order, in the shape of its kind, and its tokens have width. -/
theorem parseSource_legible (source : String) {n : Node}
    (member : n ∈ (parseSource source).tree.preorder) (inner : n.kind ≠ .document)
    (kept : n.kind ≠ .error) : n.Legible where
  inPlace := (parseSource_inPlace source).1 n member
  shape := (parse_gathered (tokenize source) n member inner).inShape fun error => absurd error kept
  wide := parseSource_wide source n member inner

/-- What covers several spans contains the one it began with. Each union contains both of its
spans. -/
theorem Span.contains_foldl_union_self (s : Span) (rest : List Span) :
    (rest.foldl union s).contains s = true := by
  induction rest generalizing s with
  | nil => exact contains_iff.mpr ⟨Nat.le_refl _, Nat.le_refl _⟩
  | cons t more ih =>
    refine contains_trans (ih (s.union t)) (contains_iff.mpr ?_)
    simp only [union]
    split <;> omega

/-- The items of a declaration stand behind its name, or behind the place where the name
is missing.

Proof: by the shape of the block. A name is the second child, and the items come later; a
missing name is placed where the next child starts. -/
theorem Shape.Block.name_before {n m : Node} {word : Keyword} {item : NodeKind}
    (block : Block word item n.children) (inPlace : n.InPlace) (member : m ∈ n.nodes) :
    (n.nameAfter word).span.stop ≤ m.span.start := by
  have ordered : InOrder _ _ (n.children.map Element.span) := inPlace
  have child := Node.mem_children_of_mem_nodes member
  generalize split : n.children = children at block ordered child
  cases block with
  | @named keyword name rest isKeyword identifier body =>
    have tokens : n.tokens = [] ++ keyword :: name :: rest.filterMap Element.token? := by
      rw [Node.tokens, split]
      rfl
    rw [Node.nameAfter_of_split tokens (List.forall_mem_nil _) isKeyword identifier]
    have behind : .node m ∈ rest := by simpa using child
    obtain ⟨-, -, -, -, later⟩ := ordered
    exact (later.bounds (List.mem_map_of_mem behind)).1
  | @unnamed keyword rest isKeyword body =>
    have tokens : n.tokens = [] ++ keyword :: rest.filterMap Element.token? := by
      rw [Node.tokens, split]
      rfl
    have missing : ∀ t ∈ (rest.filterMap Element.token?).head?, t.kind ≠ .identifier :=
      fun t first => body.tokens_ne t (List.mem_of_mem_head? first)
    rw [Node.nameAfter_of_missing tokens (List.forall_mem_nil _) isKeyword missing]
    have behind : .node m ∈ rest := by simpa using child
    obtain ⟨next, others, rfl⟩ := List.exists_cons_of_ne_nil (List.ne_nil_of_mem behind)
    have front : n.children = [] ++ .token keyword :: next :: others := split
    rw [Node.placeAfter_of_split front (List.forall_mem_nil _) isKeyword]
    obtain ⟨-, -, -, forward, later⟩ := ordered
    show next.span.start ≤ m.span.start
    rcases List.mem_cons.mp behind with rfl | further
    · exact Nat.le_refl _
    · exact Nat.le_trans forward (later.bounds (List.mem_map_of_mem further)).1

namespace Node.Legible

variable {n : Node}

/-- A node with a token has width, for it contains the token. -/
theorem start_lt_stop (legible : n.Legible) {t : Token} (member : t ∈ n.tokens) :
    n.span.start < n.span.stop := by
  have inside := Span.contains_iff.mp (legible.inPlace.contains_token member)
  have wide := legible.wide t member
  omega

/-- A type has at least one name. -/
theorem typeRef_wide (legible : n.Legible) (kind : n.kind = .typeRef) :
    n.span.start < n.span.stop := by
  have shape : Shape.Of n.kind n.children := legible.shape
  rw [kind] at shape
  generalize split : n.children = children at shape
  cases shape with
  | @whole names dotted =>
    obtain ⟨t, among, -⟩ := dotted.exists_name
    refine legible.start_lt_stop (t := t) ?_
    rw [Node.tokens, split]
    exact List.mem_filterMap.mpr ⟨.token t, List.mem_map_of_mem among, rfl⟩
  | @broken names m dotted error empty =>
    obtain ⟨t, among, -⟩ := dotted.exists_name
    refine legible.start_lt_stop (t := t) ?_
    rw [Node.tokens, split]
    refine List.mem_filterMap.mpr ⟨.token t, ?_, rfl⟩
    exact List.mem_append_left _ (List.mem_map_of_mem among)

/-- A name that is not empty is that of a token, and so has width. The other places that a name
can have come with an empty text. -/
theorem nameAfter_wide (legible : n.Legible) {word : Keyword}
    (given : (n.nameAfter word).text ≠ "") :
    (n.nameAfter word).span.start < (n.nameAfter word).span.stop := by
  revert given
  unfold Node.nameAfter
  split
  · next t found =>
    split
    · exact fun _ => legible.wide t (tokenAfter?_mem found)
    · exact fun given => absurd rfl given
  · exact fun given => absurd rfl given

/-- The same for the name of a variant, which is its first identifier. -/
theorem variantName_wide (legible : n.Legible) (given : n.variantName.text ≠ "") :
    n.variantName.span.start < n.variantName.span.stop := by
  revert given
  unfold Node.variantName
  split
  · next t found => exact fun _ => legible.wide t (List.mem_of_find?_eq_some found)
  · exact fun given => absurd rfl given

/-- The same for the name of an import. It is the place of the string, or covers the tokens of a
dotted name, the first of which has width. -/
theorem importName_wide (legible : n.Legible) (given : n.importName.text ≠ "") :
    n.importName.span.start < n.importName.span.stop := by
  revert given
  unfold Node.importName
  split
  · exact fun given => absurd rfl given
  · next first rest target =>
    intro _
    have wide : first.span.start < first.span.stop :=
      legible.wide first (n.importTarget_subset first (by simp [target]))
    split
    · exact wide
    · have inside := Span.contains_iff.mp
        (Span.contains_foldl_union_self first.span (rest.map (·.span)))
      show ((rest.map (·.span)).foldl Span.union first.span).start
        < ((rest.map (·.span)).foldl Span.union first.span).stop
      omega

end Node.Legible

/-! ## Parts -/

/-- A part whose name, if it is not missing, has width, and ends before anything below
the part begins. -/
structure Part.Headed (p : Part) : Prop where
  before : ∀ name ∈ p.name?, ∀ child ∈ p.children, name.span.stop ≤ child.span.start
  wide : ∀ name ∈ p.name?, name.text ≠ "" → name.span.start < name.span.stop

/-- A part with the name that stands behind a keyword. -/
theorem Node.Legible.headed_of_nameAfter {n : Node} {p : Part} (legible : n.Legible)
    (word : Keyword) (named : p.name? = some (n.nameAfter word))
    (behind : ∀ child ∈ p.children, (n.nameAfter word).span.stop ≤ child.span.start) :
    p.Headed := by
  constructor
  · intro name given
    cases named.symm.trans given
    exact behind
  · intro name given text
    cases named.symm.trans given
    exact legible.nameAfter_wide text

/-- The named part that is read from a node.

Proof: by the kind of the node. For a message, a field and an enum the shape of the node has the
name before everything that becomes a child; the other named parts have no children. -/
theorem Node.Legible.part_headed {n : Node} {p : Part} (legible : n.Legible)
    (read : n.part? = some p) : p.Headed := by
  have shape : Shape.Of n.kind n.children := legible.shape
  unfold Node.part? at read
  split at read
  · cases read
    refine ⟨fun name _ => List.forall_mem_nil _, ?_⟩
    rintro name ⟨⟩ given
    exact legible.importName_wide given
  · next kind =>
    cases read
    rw [kind] at shape
    refine legible.headed_of_nameAfter .message rfl fun child member => ?_
    obtain ⟨f, field, rfl⟩ := List.mem_map.mp member
    obtain ⟨m, among, rfl⟩ := List.mem_map.mp field
    exact Shape.Block.name_before shape legible.inPlace (List.mem_filter.mp among).1
  · next kind =>
    cases read
    rw [kind] at shape
    refine legible.headed_of_nameAfter .field rfl fun child member => ?_
    obtain ⟨t, given, rfl⟩ := Option.map_eq_some_iff.mp (Option.mem_toList.mp member)
    exact (legible.inPlace.toField shape).sequenced.name t given
  · next kind =>
    cases read
    rw [kind] at shape
    refine legible.headed_of_nameAfter .enum rfl fun child member => ?_
    obtain ⟨v, variant, rfl⟩ := List.mem_map.mp member
    obtain ⟨m, among, rfl⟩ := List.mem_map.mp variant
    exact Shape.Block.name_before shape legible.inPlace (List.mem_filter.mp among).1
  · cases read
    refine ⟨fun name _ => List.forall_mem_nil _, ?_⟩
    rintro name ⟨⟩ given
    exact legible.variantName_wide given
  · cases read
  · cases read
  · cases read

/-- A named part of the document of a source is read from a node of the tree. -/
theorem exists_node_of_name {source name : String} {p : Part}
    (member : p ∈ ((parseSource source).tree.toDocument name).walk)
    (named : p.name?.isSome = true) :
    ∃ n ∈ (parseSource source).tree.preorder, n.Legible ∧ n.part? = some p := by
  have parts := (parse_layered (tokenize source)).parts rfl name
  have among : p ∈ (parseSource source).tree.preorder.filterMap Node.part? := by
    rw [parseSource, parts]
    exact List.mem_filter.mpr ⟨member, named⟩
  obtain ⟨n, node, read⟩ := List.mem_filterMap.mp among
  refine ⟨n, node, parseSource_legible source node ?_ ?_, read⟩
  · intro kind
    rw [Node.part?, kind] at read
    cases read
  · intro kind
    rw [Node.part?, kind] at read
    cases read

/-- The parts of the document of a source are headed by their names. -/
theorem toDocument_headed (source name : String) :
    ∀ p ∈ ((parseSource source).tree.toDocument name).walk, p.Headed := by
  intro p member
  cases given : p.name? with
  | none => exact ⟨by simp [given], by simp [given]⟩
  | some named =>
    obtain ⟨n, -, legible, read⟩ := exists_node_of_name member (by rw [given]; rfl)
    exact legible.part_headed read

/-! ## References -/

/-- The reference that a part is. -/
def Part.typeRef? : Part → Option TypeRef
  | .typeRef t => some t
  | .document _ | .importing _ | .message _ | .field _ | .enum _ | .variant _ => none

/-- The references that a walk of a declaration meets are the types of its fields, in their
order. In a message each field is followed by its type, if it has one; other declarations have
no fields. -/
theorem Declaration.typeRefs_walk (declaration : Declaration) :
    declaration.walk.filterMap Part.typeRef?
      = (declaration.message?.toList.flatMap (·.fields)).filterMap (·.typeRef) := by
  cases declaration with
  | importing i => rfl
  | message m =>
    have fields : (m.fields.flatMap Field.walk).filterMap Part.typeRef?
        = m.fields.filterMap (·.typeRef) := by
      rw [List.filterMap_flatMap, List.filterMap_eq_flatMap_toList]
      apply List.flatMap_congr
      intro f _
      rw [Field.walk, Part.children]
      cases f.typeRef <;> rfl
    rw [Declaration.message?, Option.toList_some, List.flatMap_singleton]
    exact fields
  | enum e =>
    apply List.filterMap_eq_nil_iff.mpr
    intro p member
    rcases List.mem_cons.mp member with rfl | below
    · rfl
    · obtain ⟨v, -, rfl⟩ := List.mem_map.mp below
      rfl

/-- The references of a document are those that a walk comes to, in its order. -/
theorem Document.typeRefs_eq_walk (d : Document) :
    d.typeRefs = d.walk.filterMap Part.typeRef? := by
  have walked : d.walk.filterMap Part.typeRef?
      = d.declarations.flatMap fun declaration => declaration.walk.filterMap Part.typeRef? := by
    rw [walk, List.filterMap_cons_none rfl, List.filterMap_flatMap]
  rw [walked, List.flatMap_congr fun declaration _ => declaration.typeRefs_walk,
    ← List.filterMap_flatMap, ← List.flatMap_assoc, ← List.filterMap_eq_flatMap_toList]
  rfl

/-- The references of a document are those that a walk of it meets. -/
theorem Document.mem_typeRefs_iff {d : Document} {t : TypeRef} :
    t ∈ d.typeRefs ↔ .typeRef t ∈ d.walk := by
  rw [typeRefs_eq_walk, List.mem_filterMap]
  constructor
  · rintro ⟨p, member, same⟩
    cases p <;> cases same
    exact member
  · exact fun member => ⟨_, member, rfl⟩

/-- The references of the document of a source have width.

Proof: a reference was made from a node for a type in the tree of the source, and such a node
has width. -/
theorem toDocument_typeRefs_wide {source name : String} {t : TypeRef}
    (member : t ∈ ((parseSource source).tree.toDocument name).typeRefs) :
    t.span.start < t.span.stop := by
  obtain ⟨f, field, given⟩ := List.mem_filterMap.mp member
  obtain ⟨m, message, among⟩ := List.mem_flatMap.mp field
  obtain ⟨outer, declared, denoted⟩ := List.mem_filterMap.mp (mem_messages.mp message)
  have read : outer.toMessage = m := by
    unfold Node.toDeclaration? at denoted
    split at denoted <;> cases denoted
    rfl
  obtain ⟨n, item, rfl⟩ := List.mem_map.mp (read ▸ among)
  obtain ⟨type, first, same⟩ := Node.InPlace.exists_type given
  have kind : type.kind = .typeRef := by simpa using List.find?_some first
  have inside : type ∈ (parseSource source).tree.preorder := by
    apply Node.preorder_of_mem_nodes declared
    apply Node.preorder_of_mem_nodes (List.mem_filter.mp item).1
    exact Node.preorder_of_mem_nodes (List.mem_of_find?_eq_some first) _ type.self_mem_preorder
  rw [same]
  refine (parseSource_legible source inside ?_ ?_).typeRef_wide kind
  · rw [kind]
    decide
  · rw [kind]
    decide

/-! ## Resolved parts -/

namespace Scope

variable (scope : Scope) (used : List String)

/-- What becomes of a part if its document is resolved, given the imports that are used. -/
def resolvePart : Part → Part
  | .document d =>
    .document { d with declarations := d.declarations.map (scope.resolveDeclaration used) }
  | .importing i => .importing { i with status := scope.importStatus used i }
  | .message m => .message { m with fields := m.fields.map scope.resolveField }
  | .field f => .field (scope.resolveField f)
  | .enum e => .enum e
  | .variant v => .variant v
  | .typeRef t => .typeRef (scope.resolveRef t)

/-- Resolution leaves a part where it is. -/
theorem span_resolvePart (p : Part) : (scope.resolvePart used p).span = p.span := by
  cases p <;> rfl

/-- Resolution leaves the name of a part. -/
theorem name?_resolvePart (p : Part) : (scope.resolvePart used p).name? = p.name? := by
  cases p <;> rfl

/-- Resolution leaves all places that a part records. -/
theorem places_resolvePart (p : Part) : (scope.resolvePart used p).places = p.places := by
  cases p <;> rfl

/-- Children are taken to children. -/
theorem children_resolvePart (p : Part) :
    (scope.resolvePart used p).children = p.children.map (scope.resolvePart used) := by
  cases p with
  | document d =>
    simp only [resolvePart, Part.children, List.map_map]
    apply List.map_congr_left
    intro declaration _
    cases declaration <;> rfl
  | message m =>
    simp only [resolvePart, Part.children, List.map_map]
    rfl
  | field f => cases given : f.typeRef <;> simp [resolvePart, Part.children, resolveField, given]
  | enum e =>
    simp only [resolvePart, Part.children, List.map_map]
    rfl
  | importing i => rfl
  | variant v => rfl
  | typeRef t => rfl

/-- A walk through a resolved part comes to the resolved parts. -/
theorem walk_resolvePart (p : Part) :
    (scope.resolvePart used p).walk = p.walk.map (scope.resolvePart used) := by
  induction p using Part.induction_on_children with
  | step p ih =>
    rw [Part.walk_eq, Part.walk_eq p, children_resolvePart, List.flatMap_map, List.map_cons,
      List.map_flatMap, List.flatMap_congr ih]

/-- A part whose name stands in front keeps it there when it is resolved: neither the name nor
the places of the children change. -/
theorem headed_resolvePart {p : Part} (headed : p.Headed) : (scope.resolvePart used p).Headed := by
  constructor
  · intro name given child member
    rw [name?_resolvePart] at given
    rw [children_resolvePart] at member
    obtain ⟨inner, among, rfl⟩ := List.mem_map.mp member
    rw [span_resolvePart]
    exact headed.before name given inner among
  · intro name given
    rw [name?_resolvePart] at given
    exact headed.wide name given

end Scope

/-! ## Analysed documents -/

/-- A part of an analysed document is a part of the document that was read, resolved. -/
theorem exists_part_of_analyze {source name : String} {imports : Imports} {config : Config}
    {p : Part} (member : p ∈ (analyze source name imports config).document.walk) :
    ∃ (scope : Scope) (used : List String), ∃ q ∈ ((parseSource source).tree.toDocument name).walk,
      p = scope.resolvePart used q := by
  let d := (parseSource source).tree.toDocument name
  let scope := Scope.ofDocument d imports config
  have walked : (scope.resolveDocument d).walk
      = d.walk.map (scope.resolvePart (scope.usedImports d)) := scope.walk_resolvePart _ (.document d)
  obtain ⟨q, among, same⟩ := List.mem_map.mp (walked ▸ member)
  exact ⟨scope, scope.usedImports d, q, among, same.symm⟩

/-- In an analysed document the name of every part stands in front. -/
theorem analyze_headed (source name : String) (imports : Imports) (config : Config) :
    ∀ p ∈ (analyze source name imports config).document.walk, p.Headed := by
  intro p member
  obtain ⟨scope, used, q, among, rfl⟩ := exists_part_of_analyze member
  exact scope.headed_resolvePart used (toDocument_headed source name q among)

/-- The references of an analysed document have width. Each comes from one of the parsed
document, at the same place. -/
theorem analyze_typeRefs_wide {source name : String} {imports : Imports} {config : Config}
    {t : TypeRef} (member : t ∈ (analyze source name imports config).document.typeRefs) :
    t.span.start < t.span.stop := by
  obtain ⟨scope, used, q, among, same⟩ :=
    exists_part_of_analyze (Document.mem_typeRefs_iff.mp member)
  cases q <;> cases same
  have wide := toDocument_typeRefs_wide (Document.mem_typeRefs_iff.mpr among)
  exact wide

namespace Document.Laid

variable {d : Document} {length offset : Nat} {p : Part}

/-- At a name stands the part that is named. -/
theorem partAt?_of_name (laid : d.Laid length) (part : (Part.document d).Above p)
    (headed : p.Headed) {name : NamePart} (given : p.name? = some name)
    (here : name.span.containsOffset offset = true) : d.partAt? offset = some p := by
  have mark : name.span ∈ p.marks := by
    cases p <;> cases given <;> exact List.mem_cons_self
  have inside := (laid.parts p (mem_walk_iff.mpr part)).marks name.span mark
  apply laid.partAt?_of_outside_children part (Span.containsOffset_of_contains inside here)
  intro child member within
  have before := headed.before name given child member
  rw [Span.containsOffset_iff] at here within
  omega

/-- At a reference stands the reference. -/
theorem partAt?_of_typeRef (laid : d.Laid length) {t : TypeRef} (member : t ∈ d.typeRefs)
    (here : t.span.containsOffset offset = true) : d.partAt? offset = some (.typeRef t) :=
  laid.partAt?_of_outside_children (mem_walk_iff.mp (mem_typeRefs_iff.mp member)) here
    (List.forall_mem_nil _)

end Document.Laid

end MessageSchema
