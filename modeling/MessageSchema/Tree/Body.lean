import MessageSchema.Tree.Rules

/-!
# Bodies and declarations

Messages and enums have one shape: a keyword, a name, and items between braces.
They differ in what an item is and in where skipping may end, which is what a
`Body` records, with the two facts that make every turn of the loop over the
items take a token.
-/

namespace MessageSchema.Rule

open ParseState

/-- What stands between the braces of a declaration. -/
structure Body where
  /-- The node of an item. -/
  itemKind : NodeKind
  /-- The kinds that begin an item. -/
  starts : TokenKind → Bool
  /-- The rule of an item. -/
  item : ParseState → ParseState
  /-- The kinds at which the body begins even though its brace is missing. -/
  startsUnopened : TokenKind → Bool
  /-- Where skipping ends. -/
  stops : TokenKind → Bool
  /-- What was expected where the body breaks off. -/
  closing : String
  /-- What was expected where no item begins. -/
  expected : String
  item_shorter : ∀ {s : ParseState} {t : Token} {rest : List Token},
    s.pending = t :: rest → starts t.kind = true → (item s).pending.length < s.pending.length
  stops_handled : ∀ kind, stops kind = true →
    kind = .punct .rightBrace ∨ starts kind = true ∨ kind.startsDeclaration = true

/-- An item takes a token. The rule of the item sees the same tokens with no children before it,
so the fact that comes with the body applies. -/
theorem Body.node_shorter (body : Body) {s : ParseState} {t : Token} {rest : List Token}
    (ahead : s.pending = t :: rest) (starts : body.starts t.kind = true) :
    (s.node body.itemKind body.item).pending.length < s.pending.length :=
  body.item_shorter (s := { s with children := [] }) ahead starts

/-- What begins no item and ends no body is skipped. -/
theorem Body.skip_shorter (body : Body) {s : ParseState} {t : Token} {rest : List Token}
    (ahead : s.pending = t :: rest) (notBrace : ¬ t.kind = .punct .rightBrace)
    (notItem : ¬ body.starts t.kind = true) (notDeclaration : ¬ t.kind.startsDeclaration = true) :
    ((s.unexpected body.expected).recover body.stops).pending.length < s.pending.length := by
  have going : body.stops t.kind = false := by
    rw [Bool.eq_false_iff]
    intro stop
    rcases body.stops_handled t.kind stop with brace | item | declaration
    · exact notBrace brace
    · exact notItem item
    · exact notDeclaration declaration
  have shorter := recover_shorter (s := s.unexpected body.expected)
    ((unexpected_pending s _).trans ahead) going
  rwa [unexpected_pending] at shorter

/-- The items of a body up to its closing brace. A body that is not closed ends
before the next declaration. -/
def Body.items (body : Body) (s : ParseState) : ParseState :=
  match ahead : s.pending with
  | [] => s.unexpected body.closing
  | t :: _ =>
    if brace : t.kind = .punct .rightBrace then s.take
    else if starts : body.starts t.kind then
      have := body.node_shorter ahead starts
      body.items (s.node body.itemKind body.item)
    else if declaration : t.kind.startsDeclaration then s.unexpected body.closing
    else
      have := body.skip_shorter ahead brace starts declaration
      body.items ((s.unexpected body.expected).recover body.stops)
termination_by s.pending.length

/-- A keyword, a name, and a body. A body that neither opens nor plainly begins
is skipped. -/
def block (what : String) (body : Body) (s : ParseState) : ParseState :=
  let named := name what s.take
  if named.kind = .punct .leftBrace then body.items named.take
  else
    let reported := named.unexpected (TokenKind.describe (.punct .leftBrace))
    if named.kind = .punct .rightBrace || body.startsUnopened named.kind then body.items reported
    else reported.recover declarationStops

/-- The fields of a message. -/
def messageBody : Body where
  itemKind := .field
  starts := startsField
  item := field
  startsUnopened := startsField
  stops := fieldStops
  closing := "'\x7d' to close the message"
  expected := "a field declaration or '\x7d'"
  item_shorter := field_shorter
  stops_handled := by
    intro kind stop
    simpa [fieldStops, or_assoc] using stop

/-- The variants of an enum. An identifier alone does not show that a body begins. -/
def enumBody : Body where
  itemKind := .variant
  starts kind := kind == .identifier
  item := variant
  startsUnopened _ := false
  stops := variantStops
  closing := "'\x7d' to close the enum"
  expected := "an enum variant or '\x7d'"
  item_shorter := by
    intro s t rest ahead _
    have shorter := (variant_suffix s).length_le
    rw [take_cons ahead] at shorter
    rw [ahead, List.length_cons]
    omega
  stops_handled := by
    intro kind stop
    simp only [variantStops, Bool.or_eq_true, beq_iff_eq] at stop
    exact stop.imp_right Or.inr

/-- A message, its keyword being ahead. -/
def message (s : ParseState) : ParseState :=
  block "message name" messageBody s

/-- An enum, its keyword being ahead. -/
def enum (s : ParseState) : ParseState :=
  block "enum name" enumBody s

/-- A body leaves a suffix of what was pending. The induction is on the turns of the loop, and
each turn takes an item, skips something, or ends. -/
theorem Body.items_suffix (body : Body) (item_suffix : ∀ s, (body.item s).pending <:+ s.pending)
    (s : ParseState) : (body.items s).pending <:+ s.pending := by
  fun_induction Body.items body s with
  | case1 s ahead => exact unexpected_pending s _ ▸ List.suffix_rfl
  | case2 s t rest ahead brace => exact s.take_suffix
  | case3 s t rest ahead notBrace starts _ ih =>
    exact ih.trans (by simpa only [node_pending] using item_suffix { s with children := [] })
  | case4 s t rest ahead notBrace notItem declaration =>
    exact unexpected_pending s _ ▸ List.suffix_rfl
  | case5 s t rest ahead notBrace notItem notDeclaration _ ih =>
    have step := recover_suffix body.stops (s.unexpected body.expected)
    rw [unexpected_pending] at step
    exact ih.trans step

/-- A declaration with a body leaves a suffix of what follows its keyword, whether the body is
opened or not. -/
theorem block_suffix (what : String) (body : Body)
    (item_suffix : ∀ s, (body.item s).pending <:+ s.pending) (s : ParseState) :
    (block what body s).pending <:+ s.take.pending := by
  have named := name_suffix what s.take
  simp only [block]
  split
  · exact (body.items_suffix item_suffix _).trans ((take_suffix _).trans named)
  · split
    · have items := body.items_suffix item_suffix
        ((name what s.take).unexpected (TokenKind.describe (.punct .leftBrace)))
      rw [unexpected_pending] at items
      exact items.trans named
    · have skip := recover_suffix declarationStops
        ((name what s.take).unexpected (TokenKind.describe (.punct .leftBrace)))
      rw [unexpected_pending] at skip
      exact skip.trans named

/-- A field leaves a suffix: first modifiers go, then what a field without modifiers takes. -/
theorem field_suffix (s : ParseState) : (field s).pending <:+ s.pending :=
  (unmodifiedField_suffix _).trans (takeWhile_suffix _ _)

/-- A message takes its keyword. -/
theorem message_suffix (s : ParseState) : (message s).pending <:+ s.take.pending :=
  block_suffix _ _ field_suffix s

/-- An enum takes its keyword. -/
theorem enum_suffix (s : ParseState) : (enum s).pending <:+ s.take.pending :=
  block_suffix _ _ (fun s => (variant_suffix s).trans s.take_suffix) s

/-- The node and the rule of the declaration that a kind of token begins. -/
def declaration? : TokenKind → Option (NodeKind × (ParseState → ParseState))
  | .keyword .importing => some (.importing, importing)
  | .keyword .message => some (.message, message)
  | .keyword .enum => some (.enum, enum)
  | _ => none

/-- Every rule for a declaration takes its keyword first and leaves a suffix of the rest. -/
theorem declaration?_suffix {kind : TokenKind} {node : NodeKind} {rule : ParseState → ParseState}
    (found : declaration? kind = some (node, rule)) (s : ParseState) :
    (rule s).pending <:+ s.take.pending := by
  unfold declaration? at found
  split at found
  · cases found; exact importing_suffix s
  · cases found; exact message_suffix s
  · cases found; exact enum_suffix s
  · cases found

/-- The kinds without a rule are those that begin no declaration. -/
theorem declaration?_eq_none {kind : TokenKind} (none_found : declaration? kind = none) :
    kind.startsDeclaration = false := by
  unfold declaration? at none_found
  split at none_found
  · cases none_found
  · cases none_found
  · cases none_found
  · next notImport notMessage notEnum =>
    cases kind with
    | keyword word => cases word <;> first | rfl | simp_all
    | _ => rfl

/-- A declaration takes at least its keyword, so the loop over declarations ends. -/
theorem declaration?_shorter {s : ParseState} {t : Token} {rest : List Token} {kind : NodeKind}
    {rule : ParseState → ParseState} (ahead : s.pending = t :: rest)
    (found : declaration? t.kind = some (kind, rule)) :
    (s.node kind rule).pending.length < s.pending.length := by
  have shorter := (declaration?_suffix found { s with children := [] }).length_le
  have count := congrArg List.length ahead
  rw [take_cons (s := { s with children := [] }) ahead] at shorter
  rw [List.length_cons] at count
  rw [node_pending]
  omega

/-- What begins no declaration is skipped. -/
theorem skip_shorter {s : ParseState} {t : Token} {rest : List Token} (expected : String)
    (ahead : s.pending = t :: rest) (none_found : declaration? t.kind = none) :
    ((s.unexpected expected).recover declarationStops).pending.length < s.pending.length := by
  have shorter := recover_shorter (s := s.unexpected expected)
    ((unexpected_pending s _).trans ahead)
    (show declarationStops t.kind = false from declaration?_eq_none none_found)
  rwa [unexpected_pending] at shorter

/-- What was expected where no declaration begins. -/
def expectedDeclaration : String :=
  "a declaration ('message', 'enum' or 'import')"

/-- The declarations of a document, to the end of the source. -/
def declarations (s : ParseState) : ParseState :=
  match ahead : s.pending with
  | [] => s
  | t :: _ =>
    match found : declaration? t.kind with
    | some (kind, rule) =>
      have := declaration?_shorter ahead found
      declarations (s.node kind rule)
    | none =>
      have := skip_shorter expectedDeclaration ahead found
      declarations ((s.unexpected expectedDeclaration).recover declarationStops)
termination_by s.pending.length

end MessageSchema.Rule
