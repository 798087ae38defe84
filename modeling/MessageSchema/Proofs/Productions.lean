import MessageSchema.Proofs.Keywords

/-!
# Every node is its production with holes

The document of a tree is read off the tokens and nodes right below each node, so a
token that recovery left in the wrong node would change what the source says. For
each production there is a shape: the production with everything in it that may be
missing, and with an `error` node wherever the reading of it can break off. A node
of any tree has the shape of its kind, whatever the tokens are.

Shapes speak of one node and its children. They follow the rules one by one, as the
rules say what they gather; that what was skipped holds neither the end token nor the
keyword of a declaration is a fact about the whole tree.
-/

namespace MessageSchema

/-! ## Shapes -/

namespace Shape

/-- Identifiers with dots between them. A name that is not complete ends in a dot. -/
inductive Dotted : Bool → List Token → Prop
  | name {name : Token} (identifier : name.kind = .identifier) : Dotted true [name]
  | dangling {name dot : Token} (identifier : name.kind = .identifier)
      (mark : dot.kind = .punct .dot) : Dotted false [name, dot]
  | more {complete : Bool} {name dot : Token} {rest : List Token}
      (identifier : name.kind = .identifier) (mark : dot.kind = .punct .dot)
      (later : Dotted complete rest) : Dotted complete (name :: dot :: rest)

/-- The children of a type. The node behind a dot at its end is empty. -/
inductive TypeRef : List Element → Prop
  | whole {names : List Token} (dotted : Dotted true names) : TypeRef (names.map .token)
  | broken {names : List Token} {n : Node} (dotted : Dotted false names) (error : n.kind = .error)
      (empty : n.children = []) : TypeRef (names.map .token ++ [.node n])

/-- What an import names, if it names anything. -/
inductive Target : List Token → Prop
  | missing : Target []
  | quoted {literal : Token} (kind : literal.kind = .string) : Target [literal]
  | dotted {names : List Token} (dotted : Dotted true names) : Target names

/-- An import behind its keyword. -/
inductive Imported : List Element → Prop
  | closed {target : List Token} {rest : List Element} (names : Target target)
      (closed : Closed rest) : Imported (target.map .token ++ rest)
  | broken {names : List Token} {n : Node} (dotted : Dotted false names)
      (error : n.kind = .error) : Imported (names.map .token ++ [.node n])

/-- The children of an import. -/
inductive Import : List Element → Prop
  | intro {keyword : Token} {rest : List Element} (word : keyword.kind = .keyword .importing)
      (imported : Imported rest) : Import (.token keyword :: rest)

/-- The children of a variant. -/
inductive Variant : List Element → Prop
  | intro {name : Token} {rest : List Element} (identifier : name.kind = .identifier)
      (ending : Ending rest) : Variant (.token name :: rest)

/-- Items of one kind and what was skipped between them, to the closing brace if
there is one. -/
inductive Items (item : NodeKind) : List Element → Prop
  | unclosed : Items item []
  | closed {brace : Token} (mark : brace.kind = .punct .rightBrace) : Items item [.token brace]
  | item {n : Node} {rest : List Element} (kind : n.kind = item ∨ n.kind = .error)
      (items : Items item rest) : Items item (.node n :: rest)

/-- A declaration with items, behind its name. -/
inductive Body (item : NodeKind) : List Element → Prop
  | opened {brace : Token} {rest : List Element} (mark : brace.kind = .punct .leftBrace)
      (items : Items item rest) : Body item (.token brace :: rest)
  | unopened {rest : List Element} (items : Items item rest) : Body item rest
  | skipped {n : Node} (error : n.kind = .error) : Body item [.node n]

/-- The children of a declaration with items. -/
inductive Block (word : Keyword) (item : NodeKind) : List Element → Prop
  | named {keyword name : Token} {rest : List Element} (isKeyword : keyword.kind = .keyword word)
      (identifier : name.kind = .identifier) (body : Body item rest) :
      Block word item (.token keyword :: .token name :: rest)
  | unnamed {keyword : Token} {rest : List Element} (isKeyword : keyword.kind = .keyword word)
      (body : Body item rest) : Block word item (.token keyword :: rest)

/-- The children of a document: declarations and what was skipped between them, and
the end token. -/
inductive Document : List Element → Prop
  | intro {nodes : List Node} {last : Token}
      (kinds : ∀ n ∈ nodes, n.kind ∈ [NodeKind.importing, .message, .enum, .error])
      (ended : last.kind = .eof) : Document (nodes.map .node ++ [.token last])

/-- The children of an `error` node: tokens, but neither the end token nor the
keyword of a declaration. -/
inductive Skipped : List Element → Prop
  | intro {tokens : List Token}
      (inner : ∀ t ∈ tokens, t.kind ≠ .eof ∧ t.kind.startsDeclaration = false) :
      Skipped (tokens.map .token)

/-- The shape of the children of a node of each kind. -/
def Of : NodeKind → List Element → Prop
  | .document => Document
  | .importing => Import
  | .message => Block .message .field
  | .field => Field
  | .enum => Block .enum .variant
  | .variant => Variant
  | .typeRef => TypeRef
  | .error => Skipped

end Shape

/-! ## What the rules gather -/

namespace ParseState.Gathers

variable {s middle after : ParseState} {first second whole : List Element → Prop}

/-- What two steps gather one after the other. -/
theorem append (before : Gathers first s middle) (behind : Gathers second middle after)
    (join : ∀ a b, first a → second b → whole (a ++ b)) : Gathers whole s after := by
  obtain ⟨a, early, shape⟩ := before
  obtain ⟨b, late, shapeBehind⟩ := behind
  exact ⟨a ++ b, by rw [late, early, List.append_assoc], join a b shape shapeBehind⟩

/-- What is gathered in one shape is gathered in any shape that this one implies. -/
theorem mono (gathers : Gathers first s after) (weaken : ∀ a, first a → whole a) :
    Gathers whole s after := by
  obtain ⟨added, children, shape⟩ := gathers
  exact ⟨added, children, weaken added shape⟩

/-- A report adds nothing. -/
theorem of_report {problem : Problem} {span : Span}
    (gathers : Gathers whole (s.report problem span) after) : Gathers whole s after := by
  obtain ⟨added, children, shape⟩ := gathers
  exact ⟨added, report_children s problem span ▸ children, shape⟩

end ParseState.Gathers

/-- One token of a kind. -/
inductive Shape.Leaf (kind : TokenKind) : List Element → Prop
  | intro {t : Token} (same : t.kind = kind) : Leaf kind [.token t]

/-- One node of a kind. -/
inductive Shape.Inner (kind : NodeKind) : List Element → Prop
  | intro {n : Node} (same : n.kind = kind) : Inner kind [.node n]

namespace Rule

open ParseState

variable {s : ParseState}

/-- Taking the token ahead gathers a leaf of its kind. -/
theorem take_gathers {kind : TokenKind} (here : s.kind = kind) (notEnd : kind ≠ .eof) :
    Gathers (Shape.Leaf kind) s s.take := by
  obtain ⟨t, same, children⟩ := take_children here notEnd
  exact ⟨_, children, .intro same⟩

/-- Reading a node gathers one child, of the kind that the node is opened with. -/
theorem node_gathers (kind : NodeKind) (rule : ParseState → ParseState) (s : ParseState) :
    Gathers (Shape.Inner kind) s (s.node kind rule) :=
  ⟨_, rfl, .intro rfl⟩

/-- Skipping gathers one child, which is what was skipped. -/
theorem recover_gathers (stops : TokenKind → Bool) (s : ParseState) :
    Gathers (Shape.Inner .error) s (s.recover stops) :=
  ⟨_, rfl, .intro rfl⟩

/-- A dotted name is followed dot by dot. -/
theorem dottedTail_shape {name : Token} (identifier : name.kind = .identifier)
    (tokens : List Token) :
    Shape.Dotted (dottedTail tokens).complete (name :: (dottedTail tokens).taken) := by
  fun_induction dottedTail tokens generalizing name with
  | case1 dot next rest isDot isName ih => exact .more identifier isDot (ih isName)
  | case2 dot next rest isDot notName => exact .dangling identifier isDot
  | case3 dot next rest notDot => exact .name identifier
  | case4 dot isDot => exact .dangling identifier isDot
  | case5 dot notDot => exact .name identifier
  | case6 => exact .name identifier

/-- A dotted name gathers its tokens, complete or not. A report that it is not complete gathers
nothing. -/
theorem dotted_gathers (here : s.kind = .identifier) :
    Gathers (fun added => ∃ names, Shape.Dotted s.dotted.1 names ∧ added = names.map .token)
      s s.dotted.2 := by
  obtain ⟨name, identifier, first⟩ := take_children here (by decide)
  refine ⟨.token name :: (dottedTail s.take.pending).taken.map .token, ?_, _,
    dottedTail_shape identifier s.take.pending, rfl⟩
  have children : s.dotted.2.children
      = s.take.children ++ (dottedTail s.take.pending).taken.map .token := by
    simp only [ParseState.dotted]
    split
    · rfl
    · exact report_children _ _ _
  rw [children, first, List.append_assoc]
  rfl

/-- A type gathers a dotted name, and behind an incomplete one an empty node. -/
theorem typeRef_gathers (here : s.kind = .identifier) : Gathers Shape.TypeRef s (typeRef s) := by
  have name := dotted_gathers here
  simp only [typeRef]
  split
  · next complete =>
    rw [complete] at name
    refine name.mono ?_
    rintro _ ⟨names, dotted, rfl⟩
    exact .whole dotted
  · next incomplete =>
    rw [Bool.eq_false_iff.mpr incomplete] at name
    have mark : Gathers (· = [.node (Node.covering .error [] s.dotted.2.here)]) s.dotted.2
        (s.dotted.2.append [.node (Node.covering .error [] s.dotted.2.here)]) := ⟨_, rfl, rfl⟩
    refine name.append mark ?_
    rintro _ _ ⟨names, dotted, rfl⟩ rfl
    exact .broken dotted rfl rfl

/-- An import gathers its keyword and then what it imports: a string or a complete name up to
the end of the statement, an incomplete name and what was skipped, or nothing but the end.

Proof: each rule that is called gathers its own part, and the shapes are put together in the
order of the calls, one case for every branch. -/
theorem importing_gathers (here : s.kind = .keyword .importing) :
    Gathers Shape.Import s (importing s) := by
  suffices behind : Gathers Shape.Imported s.take (importing s) by
    refine (take_gathers here (by decide)).append behind ?_
    rintro _ _ ⟨word⟩ imported
    exact .intro word imported
  simp only [importing]
  split
  · next quoted =>
    refine (take_gathers quoted (by decide)).append (semicolon_gathers _ _) ?_
    rintro _ _ ⟨kind⟩ closed
    exact .closed (.quoted kind) closed
  · split
    · next named =>
      have name := dotted_gathers named
      split
      · next complete =>
        rw [complete] at name
        refine name.append (semicolon_gathers _ _) ?_
        rintro _ _ ⟨names, dotted, rfl⟩ closed
        exact .closed (.dotted dotted) closed
      · next incomplete =>
        rw [Bool.eq_false_iff.mpr incomplete] at name
        refine name.append (recover_gathers _ _) ?_
        rintro _ _ ⟨names, dotted, rfl⟩ ⟨error⟩
        exact .broken dotted error
    · exact (Gathers.of_report (semicolon_gathers _ _)).mono fun _ closed => .closed .missing closed

/-- A variant gathers its name and its ending. -/
theorem variant_gathers (here : s.kind = .identifier) : Gathers Shape.Variant s (variant s) := by
  refine (take_gathers here (by decide)).append (numberAndSemicolon_gathers _ _ _) ?_
  rintro _ _ ⟨identifier⟩ ending
  exact .intro identifier ending

/-- Every turn of the loop adds a node, except the last one.

Proof: by induction on the loop, with one shape of the list of items for each way a turn can go.
-/
theorem Body.items_gathers (body : Body) (s : ParseState) :
    Gathers (Shape.Items body.itemKind) s (body.items s) := by
  have ended (s : ParseState) : Gathers (Shape.Items body.itemKind) s (s.unexpected body.closing) :=
    Gathers.of_report ⟨[], (List.append_nil _).symm, .unclosed⟩
  fun_induction Body.items body s with
  | case1 s ahead => exact ended s
  | case2 s t rest ahead brace =>
    have here : s.kind = .punct .rightBrace := (kind_eq ahead).trans brace
    refine (take_gathers here (by decide)).mono ?_
    rintro _ ⟨mark⟩
    exact .closed mark
  | case3 s t rest ahead notBrace starts _ ih =>
    refine (node_gathers _ _ s).append ih ?_
    rintro _ _ ⟨kind⟩ items
    exact .item (.inl kind) items
  | case4 s t rest ahead notBrace notItem declaration => exact ended s
  | case5 s t rest ahead notBrace notItem notDeclaration _ ih =>
    refine (Gathers.of_report (recover_gathers _ _)).append ih ?_
    rintro _ _ ⟨error⟩ items
    exact .item (.inr error) items

/-- A block goes on to its items even without a brace, if one of them or the end of the
block is ahead.

Proof: what follows the name is a body in each of the three branches. The name itself is a token
or nothing, and each of the two is a way to build a block. -/
theorem block_gathers {word : Keyword} (what : String) (body : Body)
    (here : s.kind = .keyword word) :
    Gathers (Shape.Block word body.itemKind) s (block what body s) := by
  have keyword := take_gathers here nofun
  have behind : Gathers (Shape.Body body.itemKind) (name what s.take) (block what body s) := by
    simp only [block]
    split
    · next brace =>
      refine (take_gathers brace (by decide)).append (body.items_gathers _) ?_
      rintro _ _ ⟨mark⟩ items
      exact .opened mark items
    · split
      · exact (Gathers.of_report (body.items_gathers _)).mono fun _ items => .unopened items
      · refine (Gathers.of_report (recover_gathers _ _)).mono ?_
        rintro _ ⟨error⟩
        exact .skipped error
  obtain ⟨_, first, ⟨isKeyword⟩⟩ := keyword
  obtain ⟨rest, last, shape⟩ := behind
  rcases name_children what s.take with ⟨identifier, kind, second⟩ | second
  · refine ⟨_, ?_, .named isKeyword kind shape⟩
    rw [last, second, first]
    simp
  · refine ⟨_, ?_, .unnamed isKeyword shape⟩
    rw [last, second, first]
    simp

/-- The rule of a node gathers the shape of its kind. -/
theorem Builds.gathers {kind : NodeKind} {rule : ParseState → ParseState}
    (builds : Builds kind rule s.kind) : Gathers (Shape.Of kind) s (rule s) := by
  generalize here : s.kind = ahead at builds
  cases builds with
  | typeRef => exact typeRef_gathers here
  | field starts => exact field_gathers s
  | variant => exact variant_gathers here
  | declaration found =>
    unfold declaration? at found
    split at found
    · cases found; exact importing_gathers here
    · cases found; exact block_gathers _ messageBody here
    · cases found; exact block_gathers _ enumBody here
    · cases found

end Rule

/-! ## All nodes of a tree -/

/-- A node whose children have the shape of its kind. -/
def Node.InShape (n : Node) : Prop :=
  Shape.Of n.kind n.children

/-- A node that a rule built has the shape of its kind. One of skipped tokens has it if
they are none of those at which skipping stops. -/
theorem Node.Gathered.inShape {n : Node} (gathered : n.Gathered)
    (inner : n.kind = .error →
      ∀ t ∈ n.leaves, t.kind ≠ .eof ∧ t.kind.startsDeclaration = false) : n.InShape := by
  cases gathered with
  | skipped skipped place =>
    refine .intro fun t among => inner rfl t ?_
    rw [Node.covering, Node.leaves, Element.leavesOf_tokens]
    exact among
  | @built kind rule s builds fresh =>
    obtain ⟨added, children, shape⟩ := builds.gathers
    rw [fresh, List.nil_append] at children
    show Shape.Of kind (rule s).children
    rw [children]
    exact shape

/-- None of the tokens that the grammar goes through is an end token. -/
theorem kind_ne_eof_of_significant {tokens : List Token} {t : Token}
    (member : t ∈ significant tokens) : t.kind ≠ .eof := by
  have before : t ∈ tokens.takeWhile (·.kind ≠ .eof) := (List.mem_filter.mp member).1
  simpa using List.mem_takeWhile_imp before

/-- What the loop over the declarations leaves behind are nodes, of declarations and of
what was skipped. -/
theorem Headed.exists_nodes {keywords : List Token} {children : List Element}
    (headed : Headed keywords children) :
    ∃ nodes : List Node, children = nodes.map .node
      ∧ ∀ n ∈ nodes, n.kind ∈ [NodeKind.importing, .message, .enum, .error] := by
  induction headed with
  | none_met => exact ⟨[], rfl, List.forall_mem_nil _⟩
  | @skipped _ _ n _ error _ ih =>
    obtain ⟨nodes, rfl, kinds⟩ := ih
    refine ⟨nodes ++ [n], by simp, List.forall_mem_append.mpr ⟨kinds, ?_⟩⟩
    simp [error]
  | @declared _ _ _ n _ headed ih =>
    obtain ⟨nodes, rfl, kinds⟩ := ih
    refine ⟨nodes ++ [n], by simp, List.forall_mem_append.mpr ⟨kinds, ?_⟩⟩
    rcases TokenKind.declares?_eq_some headed.kind with kind | kind | kind <;> simp [kind]

/-- Every node of the tree of any tokens has the shape of its kind: it is an instance of
its production with holes.

Proof: every node but the root was gathered by the rule of its kind, and each rule gathers
children of the shape. That what was skipped holds neither an end token nor the keyword of a
declaration is taken from the leaves and from the correspondence of keywords and nodes. -/
theorem tree_in_shape (tokens : List Token) :
    (parse tokens).tree.kind = .document ∧ ∀ n ∈ (parse tokens).tree.preorder, n.InShape := by
  let read := Rule.declarations (.start tokens)
  have run : Run (.start tokens) read := Rule.declarations_run (.start tokens)
  have last : read.last = endToken tokens := run.last_eq
  have headed : Headed _ read.children := Rule.declarations_headed (s := .start tokens) .none_met
  have gathered : ∀ n ∈ Element.preorderOf read.children, n.Gathered :=
    run.gathered fun n member => absurd member List.not_mem_nil
  have leaves : Element.leavesOf read.children = significant tokens := by
    have kept := run.leaves_append_pending
    rwa [Rule.declarations_pending, List.append_nil] at kept
  refine ⟨rfl, fun n member => ?_⟩
  rw [parse, documentNode, Node.preorder, Element.preorderOf_concat, Element.preorder,
    List.append_nil, List.mem_cons] at member
  rcases member with rfl | below
  · obtain ⟨nodes, children, kinds⟩ := headed.exists_nodes
    show Shape.Document (read.children ++ [.token read.last])
    rw [children, last]
    exact .intro kinds (endToken_kind tokens)
  · refine (gathered n below).inShape fun error t leaf => ⟨?_, ?_⟩
    · have kept := Element.leavesOf_of_mem_preorderOf leaf read.children below
      exact kind_ne_eof_of_significant (leaves ▸ kept)
    · -- Every keyword heads a node of its own, and none of these is an `error` node.
      rcases headed.headed_or_free _ below with ⟨-, keyword, heads⟩ | free
      · exact absurd error heads.kind_ne_error
      · exact free t leaf

end MessageSchema
