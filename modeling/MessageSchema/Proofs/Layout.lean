import MessageSchema.Analysis
import MessageSchema.Document.Walk
import MessageSchema.Proofs.Denotation
import MessageSchema.Proofs.Nesting
import MessageSchema.Proofs.Shapes

/-!
# Documents are laid out like their source

A document takes its places from a tree in which every node holds its children in
order. What a declaration is made of is found among the children of its node, and
where something is missing its place is the start of a child, or the start of the
node itself; so all of it lies inside the node. The parts of a document are a
selection of the nodes of the tree, which keeps them nested and in order.

The order inside a field needs more, for the name, the type and the tag are looked
up one by one. It follows from the shape in which the rule of a field leaves its
children: wherever it broke off, a type comes behind the name and before the tag.
-/

namespace MessageSchema

/-! ## Look-ups stay inside their node -/

namespace Node

variable {n : Node}

/-- A token right below a node is one of its children. -/
theorem mem_children_of_mem_tokens {t : Token} (member : t ∈ n.tokens) : .token t ∈ n.children := by
  obtain ⟨e, among, same⟩ := List.mem_filterMap.mp member
  cases e with
  | token other => exact Option.some.inj same ▸ among
  | node inner => cases same

/-- What an import names is made of tokens of its node: what is left of them when keyword and
semicolon are taken away. -/
theorem importTarget_subset (n : Node) : ∀ t ∈ n.importTarget, t ∈ n.tokens := by
  intro t member
  rw [importTarget, List.mem_reverse] at member
  have kept := List.mem_reverse.mp ((List.dropWhile_sublist _).subset member)
  exact (List.mem_filter.mp kept).1

/-- A node right below another one is one of its children. -/
theorem mem_children_of_mem_nodes {m : Node} (member : m ∈ n.nodes) : .node m ∈ n.children := by
  obtain ⟨e, among, same⟩ := List.mem_filterMap.mp member
  cases e with
  | token other => cases same
  | node inner => exact Option.some.inj same ▸ among

/-- Where the first token of a kind is not among the tokens before, the one behind
it is not either. -/
theorem tokenAfter?_mem_of_absent {kind : TokenKind} {before after : List Token} {t : Token}
    (split : n.tokens = before ++ after) (absent : ∀ u ∈ before, u.kind ≠ kind)
    (found : n.tokenAfter? kind = some t) : t ∈ after := by
  rw [tokenAfter?, split, List.dropWhile_append_of_pos (by simpa using absent)] at found
  have left := List.mem_of_mem_drop (List.mem_of_mem_head? found)
  exact (List.dropWhile_sublist _).subset left

/-- A token that is found behind one of a kind is a token of the node. -/
theorem tokenAfter?_mem {kind : TokenKind} {t : Token} (found : n.tokenAfter? kind = some t) :
    t ∈ n.tokens := by
  have whole : n.tokens = [] ++ n.tokens := rfl
  exact tokenAfter?_mem_of_absent whole (List.forall_mem_nil _) found

/-- The place behind the first token of a kind, if it is known what follows it. -/
theorem placeAfter_of_split {kind : TokenKind} {before rest : List Element} {t : Token}
    {next : Element} (split : n.children = before ++ .token t :: next :: rest)
    (first : ∀ e ∈ before, e.isToken kind = false) (found : t.kind = kind) :
    n.placeAfter kind = next.span.emptyAtStart := by
  have skipped : n.children.dropWhile (!·.isToken kind) = .token t :: next :: rest := by
    rw [split, List.dropWhile_append_of_pos (by simpa using first), List.dropWhile_cons_of_neg]
    simpa [Element.isToken, Element.token?] using found
  rw [placeAfter, skipped]

namespace InPlace

/-- A node contains its children, for they lie one behind the other in its stretch. -/
theorem contains (inPlace : n.InPlace) {e : Element} (member : e ∈ n.children) :
    n.span.contains e.span = true := by
  obtain ⟨begins, -, ends⟩ := InOrder.bounds inPlace (List.mem_map_of_mem member)
  exact Span.contains_iff.mpr ⟨begins, ends⟩

/-- A node contains its tokens. -/
theorem contains_token (inPlace : n.InPlace) {t : Token} (member : t ∈ n.tokens) :
    n.span.contains t.span = true :=
  inPlace.contains (mem_children_of_mem_tokens member)

/-- A node contains the place at its start. -/
theorem contains_start (inPlace : n.InPlace) : n.span.contains n.span.emptyAtStart = true :=
  Span.contains_emptyAtStart (Span.contains_iff.mpr ⟨Nat.le_refl _, Nat.le_refl _⟩)
    (InOrder.le inPlace)

/-- A missing name stands where the next child starts, or behind the last one, or
where the node starts. -/
theorem contains_placeAfter (inPlace : n.InPlace) (kind : TokenKind) :
    n.span.contains (n.placeAfter kind) = true := by
  have among : ∀ e ∈ n.children.dropWhile (!·.isToken kind), e ∈ n.children :=
    fun e member => (List.dropWhile_sublist _).subset member
  unfold placeAfter
  split
  · next first next rest split =>
    rw [split] at among
    have member : next ∈ n.children := among next (by simp)
    obtain ⟨-, forward, -⟩ := InOrder.bounds inPlace (List.mem_map_of_mem member)
    exact Span.contains_emptyAtStart (inPlace.contains member) forward
  · next keyword split =>
    rw [split] at among
    have member := List.mem_map_of_mem (f := Element.span) (among (.token keyword) (by simp))
    obtain ⟨begins, forward, ends⟩ := InOrder.bounds inPlace member
    exact Span.contains_iff.mpr ⟨Nat.le_trans begins forward, ends⟩
  · exact inPlace.contains_start

/-- The name behind a keyword lies inside the node, also where it is missing: its place is then
that of a child or the start of the node. -/
theorem contains_nameAfter (inPlace : n.InPlace) (word : Keyword) :
    n.span.contains (n.nameAfter word).span = true := by
  unfold nameAfter
  split
  · next t found =>
    split
    · exact inPlace.contains_token (tokenAfter?_mem found)
    · exact inPlace.contains_placeAfter _
  · exact inPlace.contains_placeAfter _

/-- The name of a variant lies inside the node, which begins where a missing name would. -/
theorem contains_variantName (inPlace : n.InPlace) : n.span.contains n.variantName.span = true := by
  unfold variantName
  split
  · next t found => exact inPlace.contains_token (List.mem_of_find?_eq_some found)
  · exact inPlace.contains_start

/-- The name of an import covers tokens of its node. -/
theorem contains_importName (inPlace : n.InPlace) : n.span.contains n.importName.span = true := by
  have among : ∀ t ∈ n.importTarget, n.span.contains t.span = true := fun t member =>
    inPlace.contains_token (n.importTarget_subset t member)
  unfold importName
  split
  · exact inPlace.contains_placeAfter _
  · next first rest target =>
    rw [target] at among
    have begins := among first List.mem_cons_self
    split
    · exact begins
    · refine Span.contains_foldl_union begins ?_
      intro span member
      obtain ⟨t, inside, rfl⟩ := List.mem_map.mp member
      exact among t (List.mem_cons_of_mem first inside)

/-- The number of a node lies inside it. -/
theorem contains_number (inPlace : n.InPlace) :
    ∀ span ∈ n.numberToken?.map (·.span), n.span.contains span = true := by
  intro span member
  obtain ⟨t, found, rfl⟩ := Option.map_eq_some_iff.mp member
  exact inPlace.contains_token (tokenAfter?_mem found)

end InPlace

/-- The spans of the nodes right below a node are among those of its children. -/
theorem nodes_sublist (n : Node) :
    (n.nodes.map Node.span).Sublist (n.children.map Element.span) := by
  rw [nodes]
  induction n.children with
  | nil => exact List.Sublist.slnil
  | cons e rest ih =>
    cases e with
    | token t => exact ih.cons _
    | node m => exact ih.cons_cons _

/-- The nodes of one kind below a node stand one behind the other, as a selection of its
children. -/
theorem nodesOf_inOrder (inPlace : n.InPlace) (kind : NodeKind) :
    InOrder n.span.start n.span.stop ((n.nodesOf kind).map Node.span) :=
  InOrder.sublist inPlace ((List.filter_sublist.map _).trans n.nodes_sublist)

/-- The nodes below a child are below the node. -/
theorem preorder_of_mem_nodes {m : Node} (member : m ∈ n.nodes) :
    ∀ inner ∈ m.preorder, inner ∈ n.preorder := by
  intro inner below
  have among := mem_children_of_mem_nodes member
  obtain ⟨before, after, split⟩ := List.append_of_mem among
  obtain ⟨kind, children, span⟩ := n
  have found : inner ∈ Element.preorderOf children := by
    rw [show children = before ++ .node m :: after from split, Element.preorderOf_append,
      Element.preorderOf, Element.preorder]
    simp [below]
  exact List.mem_cons_of_mem _ found

/-- A node is the first that a walk of it meets. -/
theorem self_mem_preorder (n : Node) : n ∈ n.preorder := by
  obtain ⟨kind, children, span⟩ := n
  exact List.mem_cons_self

end Node

/-! ## The order inside a field -/

namespace Shape

/-- The first type among children. -/
def firstType? (children : List Element) : Option Node :=
  (children.filterMap Element.node?).find? (·.kind = .typeRef)

/-- Tokens in front do not matter where the first type is looked for. -/
theorem firstType?_tokens (tokens : List Token) (rest : List Element) :
    firstType? (tokens.map .token ++ rest) = firstType? rest := by
  induction tokens with
  | nil => rfl
  | cons t more ih => exact ih

/-- What was skipped is no type. -/
theorem firstType?_error {n : Node} (error : n.kind = .error) : firstType? [.node n] = none := by
  simp [firstType?, Element.node?, error]

/-- Where a statement is closed there is no type any more. -/
theorem Closed.firstType? {rest : List Element} (closed : Closed rest) : firstType? rest = none := by
  cases closed with
  | semicolon mark => rfl
  | skipped error => exact firstType?_error error

/-- In an ending there is no type. -/
theorem Ending.firstType? {rest : List Element} (ending : Ending rest) : firstType? rest = none := by
  cases ending with
  | plain closed => exact closed.firstType?
  | number mark number closed => exact closed.firstType?
  | broken mark error => exact firstType?_error error

/-- The children of a field that has a type: behind the keyword at most a name,
then a colon, then the type. -/
structure Typed (children : List Element) (type : Node) (modifiers : List Token) (keyword : Token)
    (names : List Token) (colon : Token) (rest : List Element) : Prop where
  split : children = (modifiers ++ keyword :: names ++ [colon]).map .token ++ .node type :: rest
  qualifies : ∀ t ∈ modifiers, t.kind.isModifier = true
  word : keyword.kind = .keyword .field
  named : names = [] ∨ ∃ name, names = [name] ∧ name.kind = .identifier
  mark : colon.kind = .punct .colon

/-- A type behind the name of a field follows a colon that comes first. Endings and what was
skipped have none, so the field is one that broke off behind its type at the earliest. -/
theorem Detail.exists_type {children : List Element} {type : Node} (detail : Detail children)
    (found : firstType? children = some type) :
    ∃ colon rest, colon.kind = .punct .colon ∧ children = .token colon :: .node type :: rest := by
  cases detail with
  | untyped ending => exact nomatch ending.firstType?.symm.trans found
  | @typed colon other rest mark kind ending =>
    have first : firstType? (.token colon :: .node other :: rest) = some other := by
      simp [firstType?, Element.node?, kind]
    cases Option.some.inj (first.symm.trans found)
    exact ⟨colon, rest, mark, rfl⟩
  | broken mark error => exact nomatch (firstType?_error error).symm.trans found

/-- A type is found in a field only behind its colon. -/
theorem Field.exists_typed {children : List Element} {type : Node} (shape : Field children)
    (found : firstType? children = some type) :
    ∃ modifiers keyword names colon rest,
      Typed children type modifiers keyword names colon rest := by
  obtain ⟨qualifies, unmodified⟩ := shape
  rw [firstType?_tokens] at found
  cases unmodified with
  | @named keyword name _ word identifier detail =>
    obtain ⟨colon, rest, mark, rfl⟩ := detail.exists_type found
    exact ⟨_, keyword, [name], colon, rest, by simp, qualifies, word, .inr ⟨name, rfl, identifier⟩,
      mark⟩
  | @unnamed keyword _ word detail =>
    obtain ⟨colon, rest, mark, rfl⟩ := detail.exists_type found
    exact ⟨_, keyword, [], colon, rest, by simp, qualifies, word, .inl rfl, mark⟩
  | broken error => exact nomatch (firstType?_error error).symm.trans found

end Shape

namespace Shape.Typed

variable {n type : Node} {modifiers names : List Token} {keyword colon : Token}
  {rest : List Element}

/-- The tokens of a field that has a type are its modifiers, the keyword, the name, the colon,
and those behind the type. -/
theorem tokens_eq (typed : Typed n.children type modifiers keyword names colon rest) :
    n.tokens = modifiers ++ keyword :: (names ++ colon :: rest.filterMap Element.token?) := by
  rw [Node.tokens, typed.split, List.filterMap_append, List.filterMap_map,
    List.filterMap_cons_none (show Element.token? (.node type) = none from rfl)]
  simp [Element.token?, Function.comp_def]

/-- No modifier is of a kind that is not a modifier's. -/
theorem modifiers_ne (typed : Typed n.children type modifiers keyword names colon rest)
    {kind : TokenKind} (other : kind.isModifier = false) : ∀ t ∈ modifiers, t.kind ≠ kind := by
  rintro t member rfl
  exact Bool.noConfusion (other.symm.trans (typed.qualifies t member))

/-- The tokens in front of the type and what stands behind it. -/
theorem ordered (typed : Typed n.children type modifiers keyword names colon rest)
    (inPlace : n.InPlace) :
    (∀ t ∈ modifiers ++ keyword :: names ++ [colon], t.span.stop ≤ type.span.start)
      ∧ ∀ e ∈ rest, type.span.stop ≤ e.span.start := by
  have all : InOrder _ _ (n.children.map Element.span) := inPlace
  rw [typed.split, List.map_append, List.map_cons, Element.span_tokens] at all
  obtain ⟨before, -, -, behind⟩ := all.split
  constructor
  · intro t member
    exact (before.bounds (List.mem_map_of_mem member)).2.2
  · intro e member
    exact (behind.bounds (List.mem_map_of_mem member)).1

/-- A name, or the place of a missing one, is in front of the colon.

Proof: a name that is there comes before the colon in the order of the children, and one that is
missing is placed where the colon starts. -/
theorem name_before (typed : Typed n.children type modifiers keyword names colon rest)
    (inPlace : n.InPlace) : (n.nameAfter .field).span.stop ≤ type.span.start := by
  have before := (typed.ordered inPlace).1
  have tokens := typed.tokens_eq
  have first : ∀ t ∈ modifiers, t.kind ≠ .keyword .field := typed.modifiers_ne rfl
  rcases typed.named with rfl | ⟨name, rfl, identifier⟩
  · have behind : n.tokenAfter? (.keyword .field) = some colon :=
      Node.tokenAfter?_of_split tokens first typed.word
    have place : n.placeAfter (.keyword .field) = colon.span.emptyAtStart := by
      have split : n.children
          = modifiers.map .token ++ .token keyword :: .token colon :: .node type :: rest := by
        rw [typed.split]
        simp
      refine Node.placeAfter_of_split split ?_ typed.word
      intro e member
      obtain ⟨t, among, rfl⟩ := List.mem_map.mp member
      exact decide_eq_false (first t among)
    have notName : colon.kind ≠ .identifier := by rw [typed.mark]; decide
    have ends := before colon (by simp)
    have forward : colon.span.start ≤ colon.span.stop := by
      have member : colon ∈ n.tokens := by rw [tokens]; simp
      exact (InOrder.bounds inPlace
        (List.mem_map_of_mem (Node.mem_children_of_mem_tokens member))).2.1
    rw [Node.nameAfter, behind]
    simp only [notName, if_false, place, Span.emptyAtStart]
    omega
  · rw [Node.nameAfter_of_split tokens first typed.word identifier]
    exact before name (by simp)

/-- A number is looked for behind the first equals sign, and none is in front of
the type.

Proof: nothing up to the colon is an equals sign, so the number is found among the parts behind
it, and these start behind the type. -/
theorem number_behind (typed : Typed n.children type modifiers keyword names colon rest)
    (inPlace : n.InPlace) {t : Token} (found : n.numberToken? = some t) :
    type.span.stop ≤ t.span.start := by
  have absent : ∀ u ∈ modifiers ++ keyword :: names ++ [colon], u.kind ≠ .punct .equals := by
    intro u member
    simp only [List.append_assoc, List.cons_append, List.mem_append, List.mem_cons,
      List.not_mem_nil, or_false] at member
    rcases member with modifier | rfl | name | rfl
    · exact typed.modifiers_ne rfl u modifier
    · rw [typed.word]
      decide
    · rcases typed.named with rfl | ⟨name, rfl, identifier⟩
      · exact absurd name List.not_mem_nil
      · rw [List.mem_singleton.mp name, identifier]
        decide
    · rw [typed.mark]
      decide
  have split : n.tokens
      = (modifiers ++ keyword :: names ++ [colon]) ++ rest.filterMap Element.token? := by
    rw [typed.tokens_eq]
    simp
  have member := Node.tokenAfter?_mem_of_absent split absent found
  obtain ⟨e, among, same⟩ := List.mem_filterMap.mp member
  cases e with
  | token other => exact Option.some.inj same ▸ (typed.ordered inPlace).2 _ among
  | node inner => cases same

end Shape.Typed

/-! ## What a laid out document is -/

/-- The places that a part names besides its own. -/
def Part.marks : Part → List Span
  | .importing i => [i.nameSpan]
  | .message m => [m.nameSpan]
  | .field f => f.nameSpan :: f.tagSpan.toList
  | .enum e => [e.nameSpan]
  | .variant v => v.nameSpan :: v.valueSpan.toList
  | .document _ | .typeRef _ => []

/-- A part with its children and its other places inside it, the children one
after the other. -/
structure Part.Laid (p : Part) : Prop where
  inside : ∀ child ∈ p.children, p.span.contains child.span = true
  ordered : p.children.Pairwise fun a b => a.span.stop ≤ b.span.start
  marks : ∀ span ∈ p.marks, p.span.contains span = true

/-- The name of a field comes before its type, and the type before the tag. -/
structure Field.Sequenced (f : Field) : Prop where
  name : ∀ t ∈ f.typeRef, f.nameSpan.stop ≤ t.span.start
  tag : ∀ t ∈ f.typeRef, ∀ span ∈ f.tagSpan, t.span.stop ≤ span.start

/-- A document over a source of `length` bytes, laid out like the source. -/
structure Document.Laid (length : Nat) (d : Document) : Prop where
  whole : d.span.start = 0 ∧ d.span.stop = length
  parts : ∀ p ∈ d.walk, p.Laid
  fields : ∀ f, .field f ∈ d.walk → f.Sequenced
  starts : (d.walk.map (·.span.start)).Pairwise (· ≤ ·)

/-- A node with its children inside it, one after the other. -/
structure Node.Laid (n : Node) : Prop where
  inside : ∀ e ∈ n.children, n.span.contains e.span = true
  ordered : n.children.Pairwise fun a b => a.span.stop ≤ b.span.start

/-- What is in its place is laid out: children in order, and inside. -/
theorem Node.InPlace.laid {n : Node} (inPlace : n.InPlace) : n.Laid :=
  ⟨fun _ member => inPlace.contains member, List.pairwise_map.mp (InOrder.pairwise inPlace)⟩

/-! ## The parts of a document -/

/-- A part that holds its children in order and names no place outside. -/
structure Part.InPlace (p : Part) : Prop where
  children : InOrder p.span.start p.span.stop (p.children.map Part.span)
  marks : ∀ span ∈ p.marks, p.span.contains span = true

/-- A part in its place contains its children and what it names, and its children do not
overlap. -/
theorem Part.InPlace.laid {p : Part} (inPlace : p.InPlace) : p.Laid := by
  refine ⟨?_, List.pairwise_map.mp inPlace.children.pairwise, inPlace.marks⟩
  intro child member
  obtain ⟨begins, -, ends⟩ := inPlace.children.bounds (List.mem_map_of_mem member)
  exact Span.contains_iff.mpr ⟨begins, ends⟩

/-- A field in place, what it holds in sequence. -/
structure Field.InPlace (f : Field) : Prop where
  whole : (Part.field f).InPlace
  sequenced : f.Sequenced

/-- A declaration with all that is below it in place. -/
inductive Declaration.InPlace : Declaration → Prop
  | importing {i : Import} (whole : (Part.importing i).InPlace) : InPlace (.importing i)
  | message {m : Message} (whole : (Part.message m).InPlace) (fields : ∀ f ∈ m.fields, f.InPlace) :
      InPlace (.message m)
  | enum {e : Enum} (whole : (Part.enum e).InPlace)
      (variants : ∀ v ∈ e.variants, (Part.variant v).InPlace) : InPlace (.enum e)

/-! ## Offsets in a walk -/

/-- Offsets that never decrease, between two others. -/
structure Ascending (low high : Nat) (offsets : List Nat) : Prop where
  ordered : offsets.Pairwise (· ≤ ·)
  bounds : ∀ offset ∈ offsets, low ≤ offset ∧ offset ≤ high

namespace Ascending

variable {low high : Nat} {offsets : List Nat}

/-- An offset at the beginning can be put in front of ascending ones. -/
theorem cons (ascending : Ascending low high offsets) (inside : low ≤ high) :
    Ascending low high (low :: offsets) := by
  refine ⟨List.pairwise_cons.mpr ⟨fun o member => (ascending.bounds o member).1,
    ascending.ordered⟩, ?_⟩
  intro offset member
  rcases List.mem_cons.mp member with rfl | later
  · exact ⟨Nat.le_refl _, inside⟩
  · exact ascending.bounds offset later

/-- The offsets of parts in order, if those of each part lie inside it.

Proof: by induction on the items. The offsets of the first are inside it, and those of the
others behind its end. -/
theorem flatMap {α : Type} {items : List α} {span : α → Span} {starts : α → List Nat}
    (ordered : InOrder low high (items.map span))
    (each : ∀ item ∈ items, Ascending (span item).start (span item).stop (starts item)) :
    Ascending low high (items.flatMap starts) := by
  induction items generalizing low with
  | nil => exact ⟨List.Pairwise.nil, nofun⟩
  | cons item rest ih =>
    obtain ⟨begins, forward, later⟩ := ordered
    have first := each item List.mem_cons_self
    have others := ih later fun other member => each other (List.mem_cons_of_mem item member)
    have ends := later.le
    rw [List.flatMap_cons]
    constructor
    · refine List.pairwise_append.mpr ⟨first.ordered, others.ordered, ?_⟩
      intro a inFirst b inOthers
      exact Nat.le_trans (first.bounds a inFirst).2 (others.bounds b inOthers).1
    · intro offset member
      rcases List.mem_append.mp member with inFirst | inOthers
      · have := first.bounds offset inFirst
        omega
      · have := others.bounds offset inOthers
        omega

/-- The starts of parts in order that have nothing below them. -/
theorem starts (parts : List Part) (ordered : InOrder low high (parts.map Part.span)) :
    Ascending low high (parts.map (·.span.start)) := by
  have each : ∀ p ∈ parts, Ascending p.span.start p.span.stop [p.span.start] := by
    intro p member
    obtain ⟨-, forward, -⟩ := ordered.bounds (List.mem_map_of_mem member)
    exact cons ⟨List.Pairwise.nil, nofun⟩ forward
  rw [List.map_eq_flatMap]
  exact flatMap ordered each

end Ascending

/-- The parts of a field begin one after the other, the field itself first. -/
theorem Field.InPlace.ascending {f : Field} (inPlace : f.InPlace) :
    Ascending f.span.start f.span.stop (f.walk.map (·.span.start)) :=
  (Ascending.starts _ inPlace.whole.children).cons inPlace.whole.children.le

/-- The parts of a declaration begin one after the other. Those of a message are the message and
then the parts of each field, and the fields stand in order. -/
theorem Declaration.InPlace.ascending {declaration : Declaration}
    (inPlace : declaration.InPlace) :
    Ascending declaration.span.start declaration.span.stop
      (declaration.walk.map (·.span.start)) := by
  cases inPlace with
  | importing whole => exact (Ascending.starts [] whole.children).cons whole.children.le
  | @message m whole fields =>
    have ordered : InOrder m.span.start m.span.stop (m.fields.map Field.span) := by
      have children := whole.children
      rw [Part.children, List.map_map] at children
      exact children
    have below := Ascending.flatMap ordered fun f member => (fields f member).ascending
    rw [Declaration.walk, List.map_cons, List.map_flatMap]
    exact below.cons whole.children.le
  | enum whole variants => exact (Ascending.starts _ whole.children).cons whole.children.le

/-! ## From declarations to documents -/

/-- A type has nothing below it and names no other place. -/
theorem Part.laid_typeRef (t : TypeRef) : (Part.typeRef t).Laid :=
  ⟨List.forall_mem_nil _, List.Pairwise.nil, List.forall_mem_nil _⟩

/-- All that a field consists of is laid out. -/
theorem Field.InPlace.laid {f : Field} (inPlace : f.InPlace) : ∀ p ∈ f.walk, p.Laid := by
  intro p member
  rcases List.mem_cons.mp member with rfl | below
  · exact inPlace.whole.laid
  · obtain ⟨t, -, rfl⟩ := Option.map_eq_some_iff.mp (Option.mem_toList.mp below)
    exact Part.laid_typeRef t

/-- All that a declaration consists of is laid out, its fields or variants among it. -/
theorem Declaration.InPlace.laid {declaration : Declaration} (inPlace : declaration.InPlace) :
    ∀ p ∈ declaration.walk, p.Laid := by
  intro p member
  cases inPlace with
  | importing whole => exact List.mem_singleton.mp member ▸ whole.laid
  | message whole fields =>
    rcases List.mem_cons.mp member with rfl | below
    · exact whole.laid
    · obtain ⟨f, among, inside⟩ := List.mem_flatMap.mp below
      exact (fields f among).laid p inside
  | enum whole variants =>
    rcases List.mem_cons.mp member with rfl | below
    · exact whole.laid
    · obtain ⟨v, among, rfl⟩ := List.mem_map.mp below
      exact (variants v among).laid

/-- The fields in a walk are those of the messages. -/
theorem Declaration.InPlace.sequenced {declaration : Declaration} (inPlace : declaration.InPlace)
    {f : Field} (member : .field f ∈ declaration.walk) : f.Sequenced := by
  cases inPlace with
  | importing whole => exact nomatch List.mem_singleton.mp member
  | message whole fields =>
    rcases List.mem_cons.mp member with same | below
    · exact nomatch same
    · obtain ⟨g, among, inside⟩ := List.mem_flatMap.mp below
      rcases List.mem_cons.mp inside with same | type
      · cases same
        exact (fields f among).sequenced
      · obtain ⟨t, -, same⟩ := Option.map_eq_some_iff.mp (Option.mem_toList.mp type)
        exact nomatch same
  | enum whole variants =>
    rcases List.mem_cons.mp member with same | below
    · exact nomatch same
    · obtain ⟨v, -, same⟩ := List.mem_map.mp below
      exact nomatch same

/-- The part of a declaration has its place. -/
theorem Declaration.span_ofDeclaration (declaration : Declaration) :
    (Part.ofDeclaration declaration).span = declaration.span := by
  cases declaration <;> rfl

/-- A document is laid out if its declarations are in order and in place.

Proof: the document is the first part and the declarations give the others, so each statement is
that of the document itself and that of every declaration in place. -/
theorem Document.laid_of_inPlace {d : Document} {length : Nat}
    (whole : d.span.start = 0 ∧ d.span.stop = length)
    (ordered : InOrder 0 length (d.declarations.map Declaration.span))
    (inPlace : ∀ declaration ∈ d.declarations, declaration.InPlace) : d.Laid length := by
  have root : (Part.document d).InPlace := by
    refine ⟨?_, nofun⟩
    show InOrder d.span.start d.span.stop ((d.declarations.map Part.ofDeclaration).map Part.span)
    rw [whole.1, whole.2, List.map_map]
    exact (List.map_congr_left fun e _ => Declaration.span_ofDeclaration e) ▸ ordered
  refine ⟨whole, ?_, ?_, ?_⟩
  · intro p member
    rcases List.mem_cons.mp member with rfl | below
    · exact root.laid
    · obtain ⟨declaration, among, inside⟩ := List.mem_flatMap.mp below
      exact (inPlace declaration among).laid p inside
  · intro f member
    rcases List.mem_cons.mp member with same | below
    · exact nomatch same
    · obtain ⟨declaration, among, inside⟩ := List.mem_flatMap.mp below
      exact (inPlace declaration among).sequenced inside
  · have below := Ascending.flatMap ordered fun e member => (inPlace e member).ascending
    rw [Document.walk, List.map_cons, List.map_flatMap]
    show List.Pairwise _ (d.span.start :: _)
    rw [whole.1]
    exact (below.cons (Nat.zero_le length)).ordered

/-! ## The document of a tree -/

namespace Node.InPlace

variable {n : Node}

/-- The import that a node denotes lies in its place. -/
theorem toImport (inPlace : n.InPlace) : (Part.importing n.toImport).InPlace := by
  refine ⟨InOrder.le inPlace, ?_⟩
  intro span member
  exact List.mem_singleton.mp member ▸ inPlace.contains_importName

/-- The variant that a node denotes lies in its place, with its name and its value. -/
theorem toVariant (inPlace : n.InPlace) : (Part.variant n.toVariant).InPlace := by
  refine ⟨InOrder.le inPlace, ?_⟩
  intro span member
  rcases List.mem_cons.mp member with rfl | value
  · exact inPlace.contains_variantName
  · exact inPlace.contains_number span (Option.mem_toList.mp value)

/-- The type of a field is the first type below its node. -/
theorem exists_type {t : TypeRef} (given : n.fieldType = some t) :
    ∃ type, Shape.firstType? n.children = some type ∧ t.span = type.span := by
  unfold Node.fieldType at given
  split at given
  · next type found =>
    split at given
    · cases given
    · cases given
      exact ⟨type, found, rfl⟩
  · cases given

/-- The field that a node denotes lies in its place. Its type and its tag are children of
the node, and by the shape of the node the name comes before the type, and the type before
the tag. -/
theorem toField (inPlace : n.InPlace) (shape : Shape.Field n.children) : n.toField.InPlace := by
  refine ⟨⟨?_, ?_⟩, ?_, ?_⟩
  · show InOrder n.span.start n.span.stop ((n.fieldType.map Part.typeRef).toList.map Part.span)
    cases given : n.fieldType with
    | none => exact InOrder.le inPlace
    | some t =>
      obtain ⟨type, found, same⟩ := exists_type given
      have member := mem_children_of_mem_nodes (n := n) (List.mem_of_find?_eq_some found)
      obtain ⟨begins, forward, ends⟩ := InOrder.bounds inPlace (List.mem_map_of_mem member)
      show InOrder n.span.start n.span.stop [t.span]
      rw [same]
      exact .singleton begins forward ends
  · intro span member
    rcases List.mem_cons.mp member with rfl | tag
    · exact inPlace.contains_nameAfter .field
    · exact inPlace.contains_number span (Option.mem_toList.mp tag)
  · intro t given
    obtain ⟨type, found, span⟩ := exists_type given
    obtain ⟨modifiers, keyword, names, colon, rest, typed⟩ := shape.exists_typed found
    rw [span]
    exact typed.name_before inPlace
  · intro t given span tag
    obtain ⟨type, found, same⟩ := exists_type given
    obtain ⟨modifiers, keyword, names, colon, rest, typed⟩ := shape.exists_typed found
    obtain ⟨u, number, rfl⟩ := Option.map_eq_some_iff.mp tag
    rw [same]
    exact typed.number_behind inPlace number

end Node.InPlace

/-- The nodes of a tree in place, and those of fields in shape. -/
structure Node.Sorted (n : Node) : Prop where
  inPlace : ∀ m ∈ n.preorder, m.InPlace
  fields : ∀ m ∈ n.preorder, m.kind = .field → Shape.Field m.children

namespace Node.Sorted

variable {n m : Node}

/-- A sorted tree holds the children of its root in order. -/
theorem self (sorted : n.Sorted) : n.InPlace :=
  sorted.inPlace n n.self_mem_preorder

/-- What is below a sorted tree is sorted. -/
theorem below (sorted : n.Sorted) (member : m ∈ n.nodes) : m.Sorted :=
  ⟨fun inner among => sorted.inPlace inner (preorder_of_mem_nodes member inner among),
    fun inner among => sorted.fields inner (preorder_of_mem_nodes member inner among)⟩

/-- The message that a node denotes lies in its place, as its fields do. -/
theorem toMessage (sorted : n.Sorted) : (Declaration.message n.toMessage).InPlace := by
  refine .message ⟨?_, ?_⟩ ?_
  · show InOrder n.span.start n.span.stop
      ((((n.nodesOf .field).map toField).map Part.field).map Part.span)
    rw [List.map_map, List.map_map]
    exact nodesOf_inOrder sorted.self .field
  · intro span member
    exact List.mem_singleton.mp member ▸ sorted.self.contains_nameAfter .message
  · intro f member
    obtain ⟨m, among, rfl⟩ := List.mem_map.mp member
    obtain ⟨node, kind⟩ := List.mem_filter.mp among
    have inner := sorted.below node
    exact inner.self.toField (inner.fields m m.self_mem_preorder (of_decide_eq_true kind))

/-- The enum that a node denotes lies in its place, as its variants do. -/
theorem toEnum (sorted : n.Sorted) : (Declaration.enum n.toEnum).InPlace := by
  refine .enum ⟨?_, ?_⟩ ?_
  · show InOrder n.span.start n.span.stop
      ((((n.nodesOf .variant).map toVariant).map Part.variant).map Part.span)
    rw [List.map_map, List.map_map]
    exact nodesOf_inOrder sorted.self .variant
  · intro span member
    exact List.mem_singleton.mp member ▸ sorted.self.contains_nameAfter .enum
  · intro v member
    obtain ⟨m, among, rfl⟩ := List.mem_map.mp member
    exact (sorted.below (List.mem_filter.mp among).1).self.toVariant

/-- What a node of a sorted tree declares lies in its place. -/
theorem toDeclaration? (sorted : n.Sorted) {declaration : Declaration}
    (denoted : n.toDeclaration? = some declaration) : declaration.InPlace := by
  unfold Node.toDeclaration? at denoted
  split at denoted
  · cases denoted
    exact .importing sorted.self.toImport
  · cases denoted
    exact sorted.toMessage
  · cases denoted
    exact sorted.toEnum
  · cases denoted

end Node.Sorted

/-- A declaration has the place of its node. -/
theorem Node.span_toDeclaration? {n : Node} {declaration : Declaration}
    (denoted : n.toDeclaration? = some declaration) : declaration.span = n.span := by
  unfold Node.toDeclaration? at denoted
  split at denoted <;> cases denoted <;> rfl

/-- The spans of the declarations are among those of the nodes. -/
theorem Node.declarations_sublist (nodes : List Node) :
    ((nodes.filterMap Node.toDeclaration?).map Declaration.span).Sublist (nodes.map Node.span) := by
  induction nodes with
  | nil => exact List.Sublist.slnil
  | cons n rest ih =>
    cases denoted : n.toDeclaration? with
    | none =>
      rw [List.filterMap_cons_none denoted]
      exact ih.cons _
    | some declaration =>
      rw [List.filterMap_cons_some denoted, List.map_cons, Node.span_toDeclaration? denoted]
      exact ih.cons_cons _

/-- The tree of every source is sorted, and the nodes of its fields have the shape of a
field. -/
theorem parseSource_sorted (source : String) : (parseSource source).tree.Sorted := by
  refine ⟨(parseSource_inPlace source).1, ?_⟩
  intro m member kind
  refine (parse_gathered (tokenize source) m member ?_).field kind
  rw [kind]
  decide

/-! ## Resolution moves nothing -/

namespace Scope

variable (scope : Scope)

/-- The places of the types below a field stay. -/
theorem children_resolveField (f : Field) :
    (Part.field (scope.resolveField f)).children.map Part.span
      = (Part.field f).children.map Part.span := by
  cases given : f.typeRef <;> simp [Part.children, resolveField, given, Part.span, resolveRef]

/-- A field in its place is still there once it is resolved, since its type keeps its place. -/
theorem resolveField_inPlace {f : Field} (inPlace : f.InPlace) :
    (scope.resolveField f).InPlace := by
  refine ⟨⟨?_, inPlace.whole.marks⟩, ?_, ?_⟩
  · rw [children_resolveField]
    exact inPlace.whole.children
  · intro t member
    obtain ⟨u, given, rfl⟩ := Option.map_eq_some_iff.mp member
    exact inPlace.sequenced.name u given
  · intro t member
    obtain ⟨u, given, rfl⟩ := Option.map_eq_some_iff.mp member
    exact inPlace.sequenced.tag u given

/-- A declaration in its place is still there once it is resolved. Only the fields of a message
are touched, and each stays in its place. -/
theorem resolveDeclaration_inPlace (used : List String) {declaration : Declaration}
    (inPlace : declaration.InPlace) : (scope.resolveDeclaration used declaration).InPlace := by
  cases inPlace with
  | importing whole => exact .importing ⟨whole.children, whole.marks⟩
  | @message m whole fields =>
    refine .message ⟨?_, whole.marks⟩ ?_
    · have same : ((m.fields.map scope.resolveField).map Part.field).map Part.span
          = (m.fields.map Part.field).map Part.span := by
        rw [List.map_map, List.map_map, List.map_map]
        rfl
      show InOrder m.span.start m.span.stop _
      exact same ▸ whole.children
    · intro f member
      obtain ⟨g, among, rfl⟩ := List.mem_map.mp member
      exact scope.resolveField_inPlace (fields g among)
  | enum whole variants => exact .enum whole variants

/-- Resolution leaves a declaration where it is. -/
theorem span_resolveDeclaration (used : List String) (declaration : Declaration) :
    (scope.resolveDeclaration used declaration).span = declaration.span := by
  cases declaration <;> rfl

/-- The declarations of a tree are in the order of its nodes. -/
theorem resolveDocument_laid {tree : Node} (sorted : tree.Sorted) {length : Nat}
    (span : tree.span = ⟨0, length, 1, 1⟩) (name : String) :
    (scope.resolveDocument (tree.toDocument name)).Laid length := by
  refine Document.laid_of_inPlace ?_ ?_ ?_
  · show tree.span.start = 0 ∧ tree.span.stop = length
    rw [span]
    exact ⟨rfl, rfl⟩
  · have chosen := (Node.declarations_sublist tree.nodes).trans tree.nodes_sublist
    have ordered := InOrder.sublist sorted.self chosen
    rw [span] at ordered
    have kept : (scope.resolveDocument (tree.toDocument name)).declarations.map Declaration.span
        = (tree.toDocument name).declarations.map Declaration.span := by
      rw [resolveDocument, List.map_map]
      exact List.map_congr_left fun e _ => scope.span_resolveDeclaration _ e
    exact kept ▸ ordered
  · intro declaration member
    obtain ⟨e, among, rfl⟩ := List.mem_map.mp member
    obtain ⟨n, node, denoted⟩ := List.mem_filterMap.mp among
    exact scope.resolveDeclaration_inPlace _ ((sorted.below node).toDeclaration? denoted)

end Scope

/-- The tree of a source and the document of an analysis are laid out like the
source: what is below a node or part lies inside it, in order, and no place that
is recorded lies outside.

Proof: the tree is sorted, as every run leaves its children in order and every field has its
shape. The document inherits its layout from the tree, and resolution changes no place. -/
theorem spans_nest (source name : String) (imports : Imports) (config : Config) :
    (∀ n ∈ (parseSource source).tree.preorder, n.Laid)
      ∧ (parseSource source).tree.span = ⟨0, source.utf8ByteSize, 1, 1⟩
      ∧ (analyze source name imports config).document.Laid source.utf8ByteSize := by
  have sorted := parseSource_sorted source
  have span := (parseSource_inPlace source).2
  have document : (analyze source name imports config).document
      = (Scope.ofDocument ((parseSource source).tree.toDocument name) imports config).resolveDocument
          ((parseSource source).tree.toDocument name) := rfl
  refine ⟨fun n member => (sorted.inPlace n member).laid, span, ?_⟩
  rw [document]
  exact Scope.resolveDocument_laid _ sorted span name

end MessageSchema
