import Mathlib.Data.List.Forall2
import MessageSchema.Proofs.Boundary
import MessageSchema.Proofs.Layout
import MessageSchema.Proofs.Leaves
import MessageSchema.Proofs.Recognition

/-!
# Every keyword starts one declaration

Below a declaration nothing begins at the keyword of another one, and all skipping
stops before it. So the rule of a declaration takes its own keyword and no other:
read with or without what follows the next keyword, it comes to the same place.
Between declarations, what is skipped holds no keyword either. The loop over the
declarations therefore makes one node for each keyword that it meets, and whatever
else it makes is free of keywords.

How the children of a document stand to its keywords is said by `Headed`, one rule
for each turn of the loop; the correspondence of keywords, nodes and declarations is
read off from there.
-/

namespace MessageSchema

open ParseState

/-! ## No rule goes beyond a keyword -/

/-- What is skipped in any rule holds no keyword of a declaration. -/
theorem skipTo_free {stops : TokenKind → Bool} (outside : StopsOutside stops) (tokens : List Token) :
    ∀ t ∈ (skipTo stops tokens).1, t.kind.startsDeclaration = false := by
  have passed : ∀ t : Token, ¬ stops t.kind = true → t.kind.startsDeclaration = false := by
    intro t going
    rw [Bool.eq_false_iff]
    exact fun keyword => going (outside t.kind keyword)
  fun_induction skipTo stops tokens with
  | case1 => simp
  | case2 t rest here => simp
  | case3 t rest going semicolon => simpa using passed t going
  | case4 t rest going noSemicolon ih =>
    rw [List.forall_mem_cons]
    exact ⟨passed t going, ih⟩

/-- Behind its own keyword, a declaration takes none.

Proof: cut what is ahead at the first keyword. The rule stops there, so on the shortened list it
does what it does on the whole one, and what it takes is taken from the part without keywords.
-/
theorem Rule.declaration?_free {kind : TokenKind} {node : NodeKind}
    {rule : ParseState → ParseState} (found : declaration? kind = some (node, rule))
    {s : ParseState} {t : Token} {rest : List Token} (ahead : s.pending = t :: rest) :
    ∃ taken, rest = taken ++ (rule s).pending
      ∧ ∀ u ∈ taken, u.kind.startsDeclaration = false := by
  obtain ⟨taken, whole⟩ := declaration?_suffix found s
  rw [take_cons ahead] at whole
  refine ⟨taken, whole.symm, ?_⟩
  let inside := rest.takeWhile fun u => !u.kind.startsDeclaration
  let outside := rest.dropWhile fun u => !u.kind.startsDeclaration
  have split : inside ++ outside = rest := List.takeWhile_append_dropWhile
  have free : ∀ u ∈ inside, u.kind.startsDeclaration = false := by
    intro u member
    simpa using List.mem_takeWhile_imp member
  suffices within : taken <+: inside from fun u member => free u (within.subset member)
  cases behind : outside with
  | nil =>
    rw [behind, List.append_nil] at split
    exact ⟨_, whole.trans split.symm⟩
  | cons next more =>
    have keyword : next.kind.startsDeclaration = true := by
      have first := List.head?_dropWhile_not (fun u : Token => !u.kind.startsDeclaration) rest
      simpa [show rest.dropWhile _ = next :: more from behind] using first
    -- Without what is outside, the rule would have come to the same place.
    have fenced : Fenced next more { s with pending := t :: inside } s := by
      rw [Fenced, ahead, ← split, behind, List.cons_append]
    have same := (Fenced.simulation keyword).declaration found fenced (List.cons_ne_nil t inside)
    rw [Fenced] at same
    rw [← split, behind, same, ← List.append_assoc] at whole
    exact ⟨_, List.append_cancel_right whole⟩

/-! ## The node of a declaration -/

/-- The kind of the node that a keyword starts. -/
def TokenKind.declares? : TokenKind → Option NodeKind
  | .keyword .importing => some .importing
  | .keyword .message => some .message
  | .keyword .enum => some .enum
  | _ => none

/-- A keyword that starts a declaration starts an import, a message or an enum. -/
theorem TokenKind.declares?_eq_some {kind : TokenKind} {node : NodeKind}
    (declares : kind.declares? = some node) :
    node = .importing ∨ node = .message ∨ node = .enum := by
  unfold declares? at declares
  split at declares <;> cases declares <;> simp

/-- A node that a keyword starts: its first child is the keyword, which tells its
kind, and no other keyword stands below it. -/
structure Node.HeadedBy (keyword : Token) (n : Node) : Prop where
  kind : keyword.kind.declares? = some n.kind
  first : n.children.head? = some (.token keyword)
  alone : ∀ t ∈ n.leaves.tail, t.kind.startsDeclaration = false

/-- A run adds children behind those that are there. -/
theorem Run.children_prefix {s after : ParseState} (run : Run s after) :
    s.children <+: after.children := by
  induction run with
  | done s => exact List.prefix_rfl
  | take s =>
    unfold ParseState.take
    split
    · exact List.prefix_rfl
    · exact List.prefix_append _ _
  | unexpected s expected => exact (report_children s _ _).symm ▸ List.prefix_rfl
  | missing s what => exact (report_children s _ _).symm ▸ List.prefix_rfl
  | recover stops s => exact List.prefix_append _ _
  | mark s => exact List.prefix_append _ _
  | node _ _ _ => exact List.prefix_append _ _
  | trans _ _ first second => exact first.trans second

namespace Rule

variable {kind : TokenKind} {node : NodeKind} {rule : ParseState → ParseState} {s : ParseState}
  {t : Token} {rest : List Token}

/-- The rule for a keyword makes the node that the keyword declares. -/
theorem declares?_of_declaration? (found : declaration? kind = some (node, rule)) :
    kind.declares? = some node := by
  unfold declaration? at found
  split at found
  · cases found; rfl
  · cases found; rfl
  · cases found; rfl
  · cases found

/-- Whatever has a rule is the keyword of a declaration. -/
theorem startsDeclaration_of_declaration? (found : declaration? kind = some (node, rule)) :
    kind.startsDeclaration = true := by
  unfold declaration? at found
  split at found
  · rfl
  · rfl
  · rfl
  · cases found

/-- A turn of the loop at a keyword takes the keyword, and no further one, into a
node that it heads.

Proof: the rule begins by taking the keyword, which is then the first child. The leaves and what
is ahead stay the same list, so the other leaves are the tokens that were taken behind it, and
none of these is a keyword. -/
theorem declaration?_headed (ahead : s.pending = t :: rest)
    (found : declaration? t.kind = some (node, rule)) :
    (Node.covering node (rule { s with children := [] }).children s.here).HeadedBy t
      ∧ s.pending.filter (·.kind.startsDeclaration)
        = t :: (s.node node rule).pending.filter (·.kind.startsDeclaration) := by
  let opened : ParseState := { s with children := [] }
  have openedAhead : opened.pending = t :: rest := ahead
  obtain ⟨taken, split, free⟩ := declaration?_free found openedAhead
  have run : Run opened.take (rule opened) := declaration?_run found opened
  have began : opened.take.children = [.token t] := by
    simp [opened, ParseState.take, ParseState.append, ahead]
  obtain ⟨others, children⟩ := run.children_prefix
  rw [began, List.singleton_append] at children
  have kept := run.leaves_append_pending
  rw [← children, began, take_cons openedAhead, split] at kept
  have below : Element.leavesOf others = taken := by
    simpa [Element.leavesOf, Element.leaves, ← List.append_assoc] using kept
  constructor
  · refine ⟨declares?_of_declaration? found, ?_, ?_⟩
    · rw [Node.covering, ← children]
      rfl
    · rw [Node.covering, Node.leaves, ← children]
      simpa [Element.leavesOf, Element.leaves, below] using free
  · have none_taken : taken.filter (·.kind.startsDeclaration) = [] := by
      simpa [List.filter_eq_nil_iff] using free
    have start : (t.kind.startsDeclaration) = true := startsDeclaration_of_declaration? found
    have after : (s.node node rule).pending = (rule opened).pending := rfl
    simp [ahead, split, start, none_taken, after]

end Rule

/-! ## The children of a document -/

/-- Children of a document, and the keywords that were met while they were gathered. -/
inductive Headed : List Token → List Element → Prop
  | none_met : Headed [] []
  | skipped {keywords : List Token} {children : List Element} {n : Node}
      (before : Headed keywords children) (error : n.kind = .error)
      (free : ∀ t ∈ n.leaves, t.kind.startsDeclaration = false) :
      Headed keywords (children ++ [.node n])
  | declared {keywords : List Token} {children : List Element} {keyword : Token} {n : Node}
      (before : Headed keywords children) (headed : n.HeadedBy keyword) :
      Headed (keywords ++ [keyword]) (children ++ [.node n])

/-- The loop over the declarations meets every keyword ahead.

Proof: by induction on the loop. A declaration takes the keyword ahead and no other. What is
skipped between declarations ends in front of the next keyword, so it has none. -/
theorem Rule.declarations_headed {s : ParseState} {keywords : List Token}
    (before : Headed keywords s.children) :
    Headed (keywords ++ s.pending.filter (·.kind.startsDeclaration))
      (Rule.declarations s).children := by
  fun_induction Rule.declarations s generalizing keywords with
  | case1 s ahead => simpa [ahead] using before
  | case2 s t rest ahead kind rule found _ ih =>
    obtain ⟨headed, met⟩ := declaration?_headed ahead found
    have further := ih (.declared before headed)
    rw [met]
    simpa using further
  | case3 s t rest ahead none_found _ ih =>
    let reported := s.unexpected expectedDeclaration
    have free := skipTo_free Simulation.stopsOutside_declaration reported.pending
    have met : s.pending.filter (·.kind.startsDeclaration)
        = (reported.recover declarationStops).pending.filter (·.kind.startsDeclaration) := by
      have none_skipped : (skipTo declarationStops reported.pending).1.filter
          (·.kind.startsDeclaration) = [] := by
        simpa [List.filter_eq_nil_iff] using free
      rw [← unexpected_pending s expectedDeclaration,
        ← skipTo_append declarationStops reported.pending, List.filter_append, none_skipped]
      rfl
    rw [met]
    apply ih
    rw [ParseState.recover, ParseState.append, unexpected, report_children]
    refine .skipped before rfl ?_
    rw [Node.covering, Node.leaves, Element.leavesOf_tokens]
    exact free

/-! ## Where keywords stand -/

mutual

/-- What is below a node below is below the node. -/
theorem Node.leaves_of_mem_preorder {inner : Node} {t : Token} (leaf : t ∈ inner.leaves) :
    ∀ n : Node, inner ∈ n.preorder → t ∈ n.leaves
  | ⟨kind, children, span⟩, member => by
    rw [Node.preorder, List.mem_cons] at member
    rcases member with rfl | below
    · exact leaf
    · rw [Node.leaves]
      exact Element.leavesOf_of_mem_preorderOf leaf children below

/-- The leaves of a node inside an element are leaves of the element. -/
theorem Element.leaves_of_mem_preorder {inner : Node} {t : Token} (leaf : t ∈ inner.leaves) :
    ∀ e : Element, inner ∈ e.preorder → t ∈ e.leaves
  | .token _, member => absurd member List.not_mem_nil
  | .node n, member => Node.leaves_of_mem_preorder leaf n member

/-- The same for the children of a node. The two recurse into each other, as elements and their
lists do. -/
theorem Element.leavesOf_of_mem_preorderOf {inner : Node} {t : Token} (leaf : t ∈ inner.leaves) :
    ∀ children : List Element, inner ∈ Element.preorderOf children → t ∈ Element.leavesOf children
  | [], member => absurd member List.not_mem_nil
  | e :: rest, member => by
    rw [Element.preorderOf, List.mem_append] at member
    rw [Element.leavesOf, List.mem_append]
    rcases member with first | later
    · exact .inl (Element.leaves_of_mem_preorder leaf e first)
    · exact .inr (Element.leavesOf_of_mem_preorderOf leaf rest later)

end

/-- The tokens right below a node are among its leaves. -/
theorem Node.tokens_subset_leaves {n : Node} {t : Token} (member : t ∈ n.tokens) : t ∈ n.leaves := by
  have child := Node.mem_children_of_mem_tokens member
  obtain ⟨before, after, split⟩ := List.append_of_mem child
  obtain ⟨kind, children, span⟩ := n
  have same : children = before ++ .token t :: after := split
  rw [Node.leaves, same, Element.leavesOf_append]
  simp [Element.leavesOf, Element.leaves]

namespace Node.HeadedBy

variable {keyword : Token} {n : Node}

/-- A declaration begins with its keyword, and the other leaves of it are no keywords of
declarations. -/
theorem exists_others (headed : n.HeadedBy keyword) :
    ∃ others, n.children = .token keyword :: others
      ∧ ∀ t ∈ Element.leavesOf others, t.kind.startsDeclaration = false := by
  obtain ⟨kind, children, span⟩ := n
  obtain ⟨others, rfl⟩ := List.head?_eq_some_iff.mp headed.first
  exact ⟨others, rfl, by simpa [Node.leaves, Element.leavesOf, Element.leaves] using headed.alone⟩

/-- A declaration is not what was skipped. -/
theorem kind_ne_error (headed : n.HeadedBy keyword) : n.kind ≠ .error := by
  rcases TokenKind.declares?_eq_some headed.kind with kind | kind | kind <;> simp [kind]

/-- Its keyword is the only one among the tokens of the node. -/
theorem eq_of_mem_tokens (headed : n.HeadedBy keyword) {t : Token} (member : t ∈ n.tokens)
    (starts : t.kind.startsDeclaration = true) : t = keyword := by
  obtain ⟨others, children, free⟩ := headed.exists_others
  have leaf := tokens_subset_leaves member
  obtain ⟨kind, children', span⟩ := n
  cases children
  rw [Node.leaves, Element.leavesOf, Element.leaves, List.singleton_append, List.mem_cons] at leaf
  rcases leaf with same | other
  · exact same
  · exact Bool.noConfusion (starts.symm.trans (free t other))

/-- Below the node, no node has a keyword. -/
theorem free_below (headed : n.HeadedBy keyword) {inner : Node}
    (below : inner ∈ Element.preorderOf n.children) :
    ∀ t ∈ inner.leaves, t.kind.startsDeclaration = false := by
  obtain ⟨others, children, free⟩ := headed.exists_others
  intro t leaf
  rw [children, Element.preorderOf, Element.preorder, List.nil_append] at below
  exact free t (Element.leavesOf_of_mem_preorderOf leaf others below)

end Node.HeadedBy

namespace Headed

variable {keywords : List Token} {children : List Element}

/-- Of the nodes that were not skipped, each is headed by one keyword. -/
theorem nodes (headed : Headed keywords children) :
    List.Forall₂ Node.HeadedBy keywords
      ((children.filterMap Element.node?).filter (·.kind ≠ .error)) := by
  induction headed with
  | none_met => exact .nil
  | skipped before error free ih => simpa [Element.node?, error] using ih
  | @declared keywords children keyword n before headed ih =>
    have last : List.Forall₂ Node.HeadedBy [keyword] [n] := .cons headed .nil
    simpa [Element.node?, headed.kind_ne_error] using List.rel_append ih last

/-- Right below a document stand nodes only: what was skipped is in nodes of its own. -/
theorem tokens (headed : Headed keywords children) : children.filterMap Element.token? = [] := by
  induction headed with
  | none_met => rfl
  | skipped before error free ih => simpa [Element.token?] using ih
  | declared before headed ih => simpa [Element.token?] using ih

/-- A node anywhere below the document is headed by a keyword, or has none at all.

Proof: by induction on what was gathered. A node below a declaration has only leaves behind the
keyword. -/
theorem headed_or_free (headed : Headed keywords children) :
    ∀ n ∈ Element.preorderOf children,
      (.node n ∈ children ∧ ∃ keyword, n.HeadedBy keyword)
        ∨ ∀ t ∈ n.leaves, t.kind.startsDeclaration = false := by
  induction headed with
  | none_met => simp [Element.preorderOf]
  | @skipped keywords children error before isError free ih =>
    intro n member
    rw [Element.preorderOf_concat, List.mem_append] at member
    rcases member with earlier | last
    · exact (ih n earlier).imp_left (And.imp_left (List.mem_append_left _))
    · exact .inr fun t leaf => free t (Node.leaves_of_mem_preorder leaf error last)
  | @declared keywords children keyword declaration before headed ih =>
    intro n member
    rw [Element.preorderOf_concat, List.mem_append] at member
    rcases member with earlier | last
    · exact (ih n earlier).imp_left (And.imp_left (List.mem_append_left _))
    · obtain ⟨kind, below, span⟩ := declaration
      rw [Element.preorder, Node.preorder, List.mem_cons] at last
      rcases last with rfl | below
      · exact .inl ⟨by simp, keyword, headed⟩
      · exact .inr (headed.free_below below)

/-- A node of a document is the document itself, or headed by a keyword and right below
it, or without keywords. -/
theorem document (headed : Headed keywords children) (last : Token) :
    ∀ n ∈ (documentNode children last).preorder,
      n = documentNode children last
        ∨ (n ∈ (documentNode children last).nodes ∧ ∃ keyword, n.HeadedBy keyword)
        ∨ ∀ t ∈ n.leaves, t.kind.startsDeclaration = false := by
  intro n member
  rw [documentNode, Node.preorder, Element.preorderOf_concat, Element.preorder, List.append_nil,
    List.mem_cons] at member
  rcases member with rfl | below
  · exact .inl rfl
  · refine .inr ((headed.headed_or_free n below).imp_left ?_)
    rintro ⟨child, keyword⟩
    rw [nodes_documentNode]
    exact ⟨List.mem_filterMap.mpr ⟨.node n, child, rfl⟩, keyword⟩

/-- The only token right below a document is the end token. -/
theorem document_tokens (headed : Headed keywords children) (last : Token) :
    (documentNode children last).tokens = [last] := by
  rw [Node.tokens, documentNode, List.filterMap_append, headed.tokens]
  rfl

end Headed

/-- The kind of the node that a declaration is read from. -/
def Declaration.nodeKind : Declaration → NodeKind
  | .importing _ => .importing
  | .message _ => .message
  | .enum _ => .enum

/-- A node that a keyword heads denotes a declaration of the kind that the keyword
tells. -/
theorem Node.HeadedBy.exists_declaration {keyword : Token} {n : Node} (headed : n.HeadedBy keyword) :
    ∃ d, n.toDeclaration? = some d ∧ keyword.kind.declares? = some d.nodeKind := by
  rw [headed.kind, Node.toDeclaration?]
  rcases TokenKind.declares?_eq_some headed.kind with kind | kind | kind
  · rw [kind]
    exact ⟨_, rfl, rfl⟩
  · rw [kind]
    exact ⟨_, rfl, rfl⟩
  · rw [kind]
    exact ⟨_, rfl, rfl⟩

/-- What was skipped declares nothing. -/
theorem Node.filterMap_toDeclaration? (nodes : List Node) :
    nodes.filterMap toDeclaration?
      = (nodes.filter (·.kind ≠ .error)).filterMap toDeclaration? := by
  rw [List.filterMap_filter]
  apply List.filterMap_congr
  intro n _
  by_cases error : n.kind = .error
  · simp [toDeclaration?, error]
  · simp [error]

/-- The nodes that keywords head denote as many declarations, each of the kind that
its keyword tells. -/
theorem declarations_of_headed {keywords : List Token} {nodes : List Node}
    (headed : List.Forall₂ Node.HeadedBy keywords nodes) :
    nodes.map Node.toDeclaration? = (nodes.filterMap Node.toDeclaration?).map some
      ∧ List.Forall₂ (fun keyword d => keyword.kind.declares? = some d.nodeKind) keywords
        (nodes.filterMap Node.toDeclaration?) := by
  induction headed with
  | nil => exact ⟨rfl, .nil⟩
  | @cons keyword n keywords nodes first rest ih =>
    obtain ⟨d, denotes, kind⟩ := first.exists_declaration
    obtain ⟨each, kinds⟩ := ih
    rw [List.filterMap_cons_some denotes, List.map_cons, List.map_cons, denotes, each]
    exact ⟨rfl, .cons kind kinds⟩

/-- Every keyword starts exactly one declaration, and stands nowhere else. Whatever
the tokens are, the nodes of a tree that were not skipped, and the declarations of its
document, correspond one for one and in order to the keywords among the tokens that the
tree keeps.

Proof: the loop over declarations leaves children that are headed by the keywords it met, one
for each turn that met one. The nodes, their declarations and the absence of keywords elsewhere
are read off this correspondence. -/
theorem keywords_start_declarations (tokens : List Token) (name : String) :
    let tree := (parse tokens).tree
    let keywords := (keptTokens tokens).filter (·.kind.startsDeclaration)
    let nodes := tree.nodes.filter (·.kind ≠ .error)
    let declarations := (tree.toDocument name).declarations
    List.Forall₂ Node.HeadedBy keywords nodes
      ∧ nodes.map Node.toDeclaration? = declarations.map some
      ∧ List.Forall₂ (fun keyword d => keyword.kind.declares? = some d.nodeKind) keywords declarations
      ∧ (∀ n ∈ tree.preorder, n.kind = .error → ∀ t ∈ n.leaves, t.kind.startsDeclaration = false)
      ∧ ∀ n ∈ tree.preorder, ∀ t ∈ n.tokens, t.kind.startsDeclaration = true →
        n ∈ nodes ∧ n.children.head? = some (.token t) := by
  intro tree keywords nodes declarations
  have read := Rule.declarations_run (.start tokens)
  have whole : tree = documentNode (Rule.declarations (.start tokens)).children (endToken tokens) :=
    congrArg (documentNode _) read.last_eq
  have endFree : (endToken tokens).kind.startsDeclaration = false := by
    rw [endToken_kind]
    rfl
  have met : keywords = (significant tokens).filter (·.kind.startsDeclaration) := by
    simp [keywords, keptTokens_eq, endFree]
  have headed : Headed keywords (Rule.declarations (.start tokens)).children := by
    rw [met]
    exact Rule.declarations_headed (s := .start tokens) .none_met
  have each : List.Forall₂ Node.HeadedBy keywords nodes := by
    simpa only [nodes, whole, nodes_documentNode] using headed.nodes
  have denoted : declarations = nodes.filterMap Node.toDeclaration? :=
    Node.filterMap_toDeclaration? tree.nodes
  obtain ⟨same, kinds⟩ := declarations_of_headed each
  have placed := headed.document (endToken tokens)
  rw [← whole] at placed
  rw [denoted]
  refine ⟨each, same, kinds, ?_, ?_⟩
  · intro n member error
    rcases placed n member with rfl | ⟨-, keyword, heads⟩ | free
    · exact nomatch error
    · exact absurd error heads.kind_ne_error
    · exact free
  · intro n member t child starts
    rcases placed n member with rfl | ⟨among, keyword, heads⟩ | free
    · rw [whole, headed.document_tokens, List.mem_singleton] at child
      rw [child, endFree] at starts
      exact Bool.noConfusion starts
    · obtain rfl := heads.eq_of_mem_tokens child starts
      refine ⟨List.mem_filter.mpr ⟨among, ?_⟩, heads.first⟩
      simpa using heads.kind_ne_error
    · exact Bool.noConfusion (starts.symm.trans (free t (Node.tokens_subset_leaves child)))

end MessageSchema
