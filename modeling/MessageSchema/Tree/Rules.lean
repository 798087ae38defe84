import MessageSchema.Tree.State

/-!
# The grammar

```text
document    ::= { declaration } END
declaration ::= importing | message | enum
importing   ::= "import" ( IDENT { "." IDENT } | STRING ) ";"
message     ::= "message" IDENT "{" { field } "}"
field       ::= { modifier } "field" IDENT [ ":" type ] [ "=" NUMBER ] ";"
enum        ::= "enum" IDENT "{" { variant } "}"
variant     ::= IDENT [ "=" NUMBER ] ";"
type        ::= IDENT { "." IDENT }
```

Each rule gathers the children of one node and always comes back. Where the
token ahead does not fit, the rule reports it and skips to a token at which a
rule further out can go on. A missing name, and the opening brace of a body that
plainly begins, are passed over without skipping anything.
-/

namespace MessageSchema.Rule

open ParseState

/-- The kinds that begin a field. -/
def startsField (kind : TokenKind) : Bool :=
  kind.isModifier || kind == .keyword .field

/-- Where skipping ends between declarations. -/
def declarationStops (kind : TokenKind) : Bool :=
  kind.startsDeclaration

/-- Where skipping ends inside the body of a message. -/
def fieldStops (kind : TokenKind) : Bool :=
  kind == .punct .rightBrace || startsField kind || kind.startsDeclaration

/-- Where skipping ends inside the body of an enum. -/
def variantStops (kind : TokenKind) : Bool :=
  kind == .punct .rightBrace || kind.startsDeclaration

/-- The semicolon that ends a statement. -/
def semicolon (stops : TokenKind → Bool) (s : ParseState) : ParseState :=
  if s.kind = .punct .semicolon then s.take
  else (s.unexpected (TokenKind.describe (.punct .semicolon))).recover stops

/-- An optional number behind an equals sign, and the end of the statement. -/
def numberAndSemicolon (what : String) (stops : TokenKind → Bool) (s : ParseState) : ParseState :=
  if s.kind = .punct .equals then
    if s.take.kind.isNumber then semicolon stops s.take.take
    else (s.take.unexpected what).recover stops
  else semicolon stops s

/-- The name of a declaration. A missing one is reported, and nothing is skipped. -/
def name (what : String) (s : ParseState) : ParseState :=
  if s.kind = .identifier then s.take else s.missing what

/-- A type. A dot at its end is marked by an empty `error` node. -/
def typeRef (s : ParseState) : ParseState :=
  let after := s.dotted.2
  if s.dotted.1 then after else after.append [.node (Node.covering .error [] after.here)]

/-- An import, its keyword being ahead. -/
def importing (s : ParseState) : ParseState :=
  let target := s.take
  if target.kind = .string then semicolon declarationStops target.take
  else if target.kind = .identifier then
    if target.dotted.1 then semicolon declarationStops target.dotted.2
    else target.dotted.2.recover declarationStops
  else semicolon declarationStops (target.missing "import name")

/-- The part of a field behind its name. -/
def fieldDetail (s : ParseState) : ParseState :=
  if s.kind = .punct .colon then
    if s.take.kind = .identifier then
      numberAndSemicolon "a field tag" fieldStops (s.take.node .typeRef typeRef)
    else (s.take.unexpected "a type name").recover fieldStops
  else numberAndSemicolon "a field tag" fieldStops s

/-- A field behind its modifiers. -/
def unmodifiedField (s : ParseState) : ParseState :=
  if s.kind = .keyword .field then fieldDetail (name "field name" s.take)
  else (s.unexpected (TokenKind.describe (.keyword .field))).recover fieldStops

/-- A field, a modifier or its keyword being ahead. -/
def field (s : ParseState) : ParseState :=
  unmodifiedField (s.takeWhile TokenKind.isModifier)

/-- A variant, its name being ahead. -/
def variant (s : ParseState) : ParseState :=
  numberAndSemicolon "a variant value" variantStops s.take

/-! ## What is ahead after a rule -/

/-- A statement's end leaves a suffix: a semicolon is taken, or something is skipped. -/
theorem semicolon_suffix (stops : TokenKind → Bool) (s : ParseState) :
    (semicolon stops s).pending <:+ s.pending := by
  unfold semicolon
  split
  · exact s.take_suffix
  · simpa only [unexpected_pending] using recover_suffix stops (s.unexpected _)

/-- So does an end with a number in front of it, in each way in which the number can be
missing. -/
theorem numberAndSemicolon_suffix (what : String) (stops : TokenKind → Bool) (s : ParseState) :
    (numberAndSemicolon what stops s).pending <:+ s.pending := by
  unfold numberAndSemicolon
  split
  · split
    · exact (semicolon_suffix stops _).trans (s.take.take_suffix.trans s.take_suffix)
    · have step := recover_suffix stops (s.take.unexpected what)
      rw [unexpected_pending] at step
      exact step.trans s.take_suffix
  · exact semicolon_suffix stops s

/-- A name is taken if it is there, and otherwise nothing is. -/
theorem name_suffix (what : String) (s : ParseState) : (name what s).pending <:+ s.pending := by
  unfold name
  split
  · exact s.take_suffix
  · exact missing_pending s what ▸ List.suffix_rfl

/-- A reference takes a dotted name and nothing besides; the report about a name that breaks off
takes nothing. -/
theorem typeRef_pending (s : ParseState) : (typeRef s).pending = s.dotted.2.pending := by
  unfold typeRef
  split <;> rfl

/-- A reference leaves a suffix, as the dotted name in it does. -/
theorem typeRef_suffix (s : ParseState) : (typeRef s).pending <:+ s.pending := by
  rw [typeRef_pending]
  exact s.dotted_suffix

/-- What follows a field's name leaves a suffix, with a type or without. -/
theorem fieldDetail_suffix (s : ParseState) : (fieldDetail s).pending <:+ s.pending := by
  unfold fieldDetail
  split
  · split
    · have step := typeRef_suffix { s.take with children := [] }
      exact (numberAndSemicolon_suffix _ _ _).trans (step.trans s.take_suffix)
    · have step := recover_suffix fieldStops (s.take.unexpected "a type name")
      rw [unexpected_pending] at step
      exact step.trans s.take_suffix
  · exact numberAndSemicolon_suffix _ _ _

/-- An import takes its keyword. -/
theorem importing_suffix (s : ParseState) : (importing s).pending <:+ s.take.pending := by
  simp only [importing]
  split
  · exact (semicolon_suffix _ _).trans (take_suffix _)
  · split
    · split
      · exact (semicolon_suffix _ _).trans (dotted_suffix _)
      · exact (recover_suffix _ _).trans (dotted_suffix _)
    · have step := semicolon_suffix declarationStops (s.take.missing "import name")
      rwa [missing_pending] at step

/-- A variant takes its name. -/
theorem variant_suffix (s : ParseState) : (variant s).pending <:+ s.take.pending :=
  numberAndSemicolon_suffix _ _ _

/-- A field without modifiers leaves a suffix: its keyword and name are taken or reported, and
the rest follows. -/
theorem unmodifiedField_suffix (s : ParseState) : (unmodifiedField s).pending <:+ s.pending := by
  unfold unmodifiedField
  split
  · exact (fieldDetail_suffix _).trans ((name_suffix _ _).trans s.take_suffix)
  · simpa only [unexpected_pending] using recover_suffix fieldStops (s.unexpected _)

/-- A field takes its keyword. -/
theorem unmodifiedField_shorter {s : ParseState} {t : Token} {rest : List Token}
    (ahead : s.pending = t :: rest) (keyword : t.kind = .keyword .field) :
    (unmodifiedField s).pending.length < s.pending.length := by
  have here : s.kind = .keyword .field := by simp [ParseState.kind, ahead, keyword]
  have inside := ((fieldDetail_suffix (name "field name" s.take)).trans
    (name_suffix "field name" s.take)).length_le
  rw [take_cons ahead] at inside
  rw [unmodifiedField, if_pos here, ahead, List.length_cons]
  omega

/-- A field takes the token it begins with. -/
theorem field_shorter {s : ParseState} {t : Token} {rest : List Token}
    (ahead : s.pending = t :: rest) (starts : startsField t.kind = true) :
    (field s).pending.length < s.pending.length := by
  have start : (s.takeWhile TokenKind.isModifier).pending
      = (t :: rest).dropWhile (TokenKind.isModifier ·.kind) := by
    rw [← ahead]
    rfl
  by_cases modifier : t.kind.isModifier = true
  · have whole := (unmodifiedField_suffix (s.takeWhile TokenKind.isModifier)).length_le
    have tail := (List.dropWhile_suffix (l := rest) (TokenKind.isModifier ·.kind)).length_le
    simp only [List.dropWhile_cons, modifier, if_true] at start
    rw [start] at whole
    rw [field, ahead, List.length_cons]
    omega
  · simp only [startsField, modifier, Bool.false_or, beq_iff_eq] at starts
    simp only [List.dropWhile_cons, modifier] at start
    have shorter := unmodifiedField_shorter start starts
    have fewer := (takeWhile_suffix TokenKind.isModifier s).length_le
    rw [field]
    omega

end MessageSchema.Rule
