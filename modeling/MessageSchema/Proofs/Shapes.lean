import Mathlib.Data.List.TakeWhile
import MessageSchema.Proofs.Runs

/-!
# What the rules gather

Meaning is read off a node by looking at its children, so it matters in which
order a rule can leave them, on malformed input too. Wherever a rule breaks off,
what it has gathered so far is the beginning of its production, with an `error`
node in place of the rest.

Every node of a tree but its root was gathered by the rule of its kind from no
children at all, or holds skipped tokens. The shape of a field follows from this
and from what each rule below it gathers.
-/

namespace MessageSchema

/-! ## Shapes -/

namespace Shape

/-- The end of a statement, or what was skipped in its place. -/
inductive Closed : List Element → Prop
  | semicolon {t : Token} (mark : t.kind = .punct .semicolon) : Closed [.token t]
  | skipped {n : Node} (error : n.kind = .error) : Closed [.node n]

/-- An optional number behind an equals sign, and the end of the statement. -/
inductive Ending : List Element → Prop
  | plain {rest : List Element} (closed : Closed rest) : Ending rest
  | number {equals literal : Token} {rest : List Element} (mark : equals.kind = .punct .equals)
      (number : literal.kind.isNumber = true) (closed : Closed rest) :
      Ending (.token equals :: .token literal :: rest)
  | broken {equals : Token} {n : Node} (mark : equals.kind = .punct .equals)
      (error : n.kind = .error) : Ending [.token equals, .node n]

/-- A field behind its name. -/
inductive Detail : List Element → Prop
  | untyped {rest : List Element} (ending : Ending rest) : Detail rest
  | typed {colon : Token} {type : Node} {rest : List Element} (mark : colon.kind = .punct .colon)
      (kind : type.kind = .typeRef) (ending : Ending rest) :
      Detail (.token colon :: .node type :: rest)
  | broken {colon : Token} {n : Node} (mark : colon.kind = .punct .colon)
      (error : n.kind = .error) : Detail [.token colon, .node n]

/-- A field behind its modifiers. -/
inductive Unmodified : List Element → Prop
  | named {keyword name : Token} {rest : List Element} (word : keyword.kind = .keyword .field)
      (identifier : name.kind = .identifier) (detail : Detail rest) :
      Unmodified (.token keyword :: .token name :: rest)
  | unnamed {keyword : Token} {rest : List Element} (word : keyword.kind = .keyword .field)
      (detail : Detail rest) : Unmodified (.token keyword :: rest)
  | broken {n : Node} (error : n.kind = .error) : Unmodified [.node n]

/-- The children of a field. -/
inductive Field : List Element → Prop
  | intro {modifiers : List Token} {rest : List Element}
      (qualifies : ∀ t ∈ modifiers, t.kind.isModifier = true) (unmodified : Unmodified rest) :
      Field (modifiers.map .token ++ rest)

end Shape

/-! ## What a rule adds -/

/-- What was added to the children on the way from one state to another. -/
def ParseState.Gathers (shape : List Element → Prop) (s after : ParseState) : Prop :=
  ∃ added, after.children = s.children ++ added ∧ shape added

namespace Rule

open ParseState

variable {s : ParseState}

/-- Taking the token ahead adds it to the children. -/
theorem take_children {kind : TokenKind} (here : s.kind = kind) (notEnd : kind ≠ .eof) :
    ∃ t, t.kind = kind ∧ s.take.children = s.children ++ [.token t] := by
  obtain ⟨t, rest, ahead⟩ := List.exists_cons_of_ne_nil (pending_ne_nil here notEnd)
  rw [ParseState.kind, ahead] at here
  exact ⟨t, here, by rw [take, ahead]; rfl⟩

/-- A report and a recovery add one `error` node. -/
theorem recover_children (stops : TokenKind → Bool) (expected : String) (s : ParseState) :
    ∃ n : Node, n.kind = .error
      ∧ ((s.unexpected expected).recover stops).children = s.children ++ [.node n] :=
  ⟨_, rfl, congrArg (· ++ [_]) (report_children s _ _)⟩

/-- Reading a node adds it to the children. -/
theorem node_children (kind : NodeKind) (rule : ParseState → ParseState) (s : ParseState) :
    ∃ n : Node, n.kind = kind ∧ (s.node kind rule).children = s.children ++ [.node n] :=
  ⟨_, rfl, rfl⟩

/-- A name is taken, or nothing is. -/
theorem name_children (what : String) (s : ParseState) :
    (∃ t, t.kind = .identifier ∧ (name what s).children = s.children ++ [.token t])
      ∨ (name what s).children = s.children := by
  unfold name
  split
  · next here => exact .inl (take_children here (by decide))
  · exact .inr (report_children s _ _)

/-- The end of a statement gathers a semicolon, or what was skipped in its place. -/
theorem semicolon_gathers (stops : TokenKind → Bool) (s : ParseState) :
    Gathers Shape.Closed s (semicolon stops s) := by
  unfold semicolon
  split
  · next here =>
    obtain ⟨t, mark, children⟩ := take_children here (by decide)
    exact ⟨_, children, .semicolon mark⟩
  · obtain ⟨n, error, children⟩ := recover_children stops _ s
    exact ⟨_, children, .skipped error⟩

/-- A number and the end of a statement gather an ending. Behind the equals sign there is a
number and the end, or what was skipped. -/
theorem numberAndSemicolon_gathers (what : String) (stops : TokenKind → Bool) (s : ParseState) :
    Gathers Shape.Ending s (numberAndSemicolon what stops s) := by
  unfold numberAndSemicolon
  split
  · next here =>
    obtain ⟨equals, mark, first⟩ := take_children here (by decide)
    split
    · next number =>
      have notEnd : s.take.kind ≠ .eof := fun isEnd => by rw [isEnd] at number; cases number
      obtain ⟨literal, same, second⟩ := take_children rfl notEnd
      obtain ⟨rest, third, closed⟩ := semicolon_gathers stops s.take.take
      refine ⟨.token equals :: .token literal :: rest, ?_, .number mark (same ▸ number) closed⟩
      rw [third, second, first]
      simp
    · obtain ⟨n, error, second⟩ := recover_children stops what s.take
      refine ⟨[.token equals, .node n], ?_, .broken mark error⟩
      rw [second, first]
      simp
  · obtain ⟨rest, children, closed⟩ := semicolon_gathers stops s
    exact ⟨rest, children, .plain closed⟩

/-- Behind its name a field gathers its type with the colon, if it has one, and the ending; or
what was skipped behind the colon. -/
theorem fieldDetail_gathers (s : ParseState) : Gathers Shape.Detail s (fieldDetail s) := by
  unfold fieldDetail
  split
  · next here =>
    obtain ⟨colon, mark, first⟩ := take_children here (by decide)
    split
    · obtain ⟨type, kind, second⟩ := node_children .typeRef typeRef s.take
      obtain ⟨rest, third, ending⟩ :=
        numberAndSemicolon_gathers "a field tag" fieldStops (s.take.node .typeRef typeRef)
      refine ⟨.token colon :: .node type :: rest, ?_, .typed mark kind ending⟩
      rw [third, second, first]
      simp
    · obtain ⟨n, error, second⟩ := recover_children fieldStops "a type name" s.take
      refine ⟨[.token colon, .node n], ?_, .broken mark error⟩
      rw [second, first]
      simp
  · obtain ⟨rest, children, ending⟩ := numberAndSemicolon_gathers "a field tag" fieldStops s
    exact ⟨rest, children, .untyped ending⟩

/-- From the keyword on a field gathers its name, if there is one, and what stands behind it.
Without the keyword all is skipped. -/
theorem unmodifiedField_gathers (s : ParseState) :
    Gathers Shape.Unmodified s (unmodifiedField s) := by
  unfold unmodifiedField
  split
  · next here =>
    obtain ⟨keyword, word, first⟩ := take_children here (by decide)
    obtain ⟨rest, last, detail⟩ := fieldDetail_gathers (name "field name" s.take)
    rcases name_children "field name" s.take with ⟨identifier, kind, second⟩ | second
    · refine ⟨.token keyword :: .token identifier :: rest, ?_, .named word kind detail⟩
      rw [last, second, first]
      simp
    · refine ⟨.token keyword :: rest, ?_, .unnamed word detail⟩
      rw [last, second, first]
      simp
  · obtain ⟨n, error, children⟩ := recover_children fieldStops _ s
    exact ⟨_, children, .broken error⟩

/-- A field gathers its modifiers first. They are a run of tokens, so nothing else comes between
them. -/
theorem field_gathers (s : ParseState) : Gathers Shape.Field s (field s) := by
  obtain ⟨rest, children, unmodified⟩ :=
    unmodifiedField_gathers (s.takeWhile TokenKind.isModifier)
  refine ⟨(s.pending.takeWhile (TokenKind.isModifier ·.kind)).map .token ++ rest, ?_, ?_⟩
  · rw [field, children, ← List.append_assoc]
    rfl
  · refine .intro ?_ unmodified
    intro t member
    exact List.mem_takeWhile_imp (p := fun t : Token => t.kind.isModifier) member

end Rule

/-! ## Every node was gathered by its rule -/

/-- A node over skipped tokens, or one whose rule began without children. -/
inductive Node.Gathered : Node → Prop
  | skipped (tokens : List Token) (place : Span) :
      Gathered (Node.covering .error (tokens.map .token) place)
  | built {kind : NodeKind} {rule : ParseState → ParseState} {s : ParseState}
      (builds : Rule.Builds kind rule s.kind) (fresh : s.children = []) :
      Gathered (Node.covering kind (rule s).children s.here)

/-- No other rule builds a field. -/
theorem Rule.Builds.eq_field {rule : ParseState → ParseState} {ahead : TokenKind}
    (builds : Rule.Builds .field rule ahead) : rule = Rule.field := by
  cases builds with
  | field starts => rfl
  | declaration found =>
    unfold Rule.declaration? at found
    split at found <;> cases found

/-- What is skipped is no rule's own node. -/
theorem Rule.Builds.kind_ne_error {kind : NodeKind} {rule : ParseState → ParseState}
    {ahead : TokenKind} (builds : Rule.Builds kind rule ahead) : kind ≠ .error := by
  rintro rfl
  cases builds with
  | declaration found =>
    unfold Rule.declaration? at found
    split at found <;> cases found

/-- A node of a field that was gathered by its rule has the shape of a field. What was skipped
is no field, and only one rule builds nodes of this kind. -/
theorem Node.Gathered.field {n : Node} (gathered : n.Gathered) (kind : n.kind = .field) :
    Shape.Field n.children := by
  cases gathered with
  | skipped tokens place => cases kind
  | @built _ rule s builds fresh =>
    have same : _ = NodeKind.field := kind
    subst same
    obtain ⟨added, children, shape⟩ := Rule.field_gathers s
    rw [fresh, List.nil_append] at children
    rw [builds.eq_field, Node.covering, children]
    exact shape

/-- One more child, every node of which was gathered by its rule. -/
theorem Node.Gathered.concat {children : List Element} {child : Element}
    (before : ∀ n ∈ Element.preorderOf children, n.Gathered)
    (added : ∀ n ∈ child.preorder, n.Gathered) :
    ∀ n ∈ Element.preorderOf (children ++ [child]), n.Gathered := by
  intro n member
  rw [Element.preorderOf_concat, List.mem_append] at member
  exact member.elim (before n) (added n)

/-- A node of skipped tokens has none but itself in a walk, and it counts as gathered. -/
theorem Node.Gathered.preorder_skipped (tokens : List Token) (place : Span) :
    ∀ n ∈ (Element.node (Node.covering .error (tokens.map .token) place)).preorder,
      n.Gathered := by
  intro n member
  rw [Element.preorder_covering, Element.preorderOf_tokens, List.mem_singleton] at member
  exact member ▸ .skipped tokens place

/-- A run adds only nodes that were gathered by their rules.

Proof: by induction on the run. A token has no nodes, a skipped stretch is a node for an error,
and a node that a rule has built was gathered by this rule. -/
theorem Run.gathered {s after : ParseState} (run : Run s after)
    (before : ∀ n ∈ Element.preorderOf s.children, n.Gathered) :
    ∀ n ∈ Element.preorderOf after.children, n.Gathered := by
  induction run with
  | done s => exact before
  | take s =>
    unfold ParseState.take
    split
    · exact before
    · exact Node.Gathered.concat before fun n member => absurd member List.not_mem_nil
  | unexpected s expected =>
    rw [ParseState.unexpected, ParseState.report_children]
    exact before
  | missing s what =>
    rw [ParseState.missing, ParseState.report_children]
    exact before
  | recover stops s => exact Node.Gathered.concat before (Node.Gathered.preorder_skipped _ _)
  | mark s => exact Node.Gathered.concat before (Node.Gathered.preorder_skipped [] _)
  | @node kind rule s builds below ih =>
    refine Node.Gathered.concat before ?_
    intro n member
    rw [Element.preorder_covering, List.mem_cons] at member
    rcases member with rfl | deeper
    · exact .built (s := { s with children := [] }) builds rfl
    · exact ih (fun n member => absurd member List.not_mem_nil) n deeper
  | trans _ _ first second => exact second (first before)

/-- The nodes below the root of a tree. -/
theorem parse_gathered (tokens : List Token) :
    ∀ n ∈ (parse tokens).tree.preorder, n.kind ≠ .document → n.Gathered := by
  intro n member inner
  rw [parse, documentNode, Node.preorder, List.mem_cons, Element.preorderOf_concat,
    List.mem_append] at member
  rcases member with rfl | below | last
  · exact absurd rfl inner
  · refine (Rule.declarations_run (.start tokens)).gathered ?_ n below
    exact fun n member => absurd member List.not_mem_nil
  · exact absurd last List.not_mem_nil

end MessageSchema
