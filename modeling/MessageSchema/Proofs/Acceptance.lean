import Mathlib.Data.List.TakeWhile
import MessageSchema.Proofs.Grammar
import MessageSchema.Proofs.Runs

/-!
# The rules accept exactly the phrases

Two facts are proved of every rule. Where a phrase is ahead, the rule takes it
without a report and leaves the phrase's own children behind (`_accept`). And a
rule that begins awake either has a phrase ahead of it or makes a report
(`_reads`); a report is never taken back, so a run without reports has read
phrases all the way. A silent reader has reported before, so silence cannot hide
the first deviation.

Together they say that reading a token list adds no report exactly if the list
is a word of the grammar.
-/

namespace MessageSchema

open Phrase

namespace ParseState

/-- The state after `elements` were taken without a report, with `rest` ahead. -/
def accept (s : ParseState) (elements : List Element) (rest : List Token) : ParseState :=
  { s with pending := rest, children := s.children ++ elements, silent := false }

/-- Taking twice is taking once: the children add up, and what counts is what is ahead at the
end. -/
theorem accept_accept (s : ParseState) (first second : List Element) (middle rest : List Token) :
    (s.accept first middle).accept second rest = s.accept (first ++ second) rest := by
  simp [accept]

/-- The kind that a rule looks at is the kind of the token ahead. -/
theorem kind_eq {s : ParseState} {t : Token} {rest : List Token} (ahead : s.pending = t :: rest) :
    s.kind = t.kind := by
  rw [kind, ahead]

/-- Taking the token ahead is accepting it. A token that is taken ends any silence. -/
theorem take_eq_accept {s : ParseState} {t : Token} {rest : List Token}
    (ahead : s.pending = t :: rest) : s.take = s.accept [.token t] rest := by
  simp [take, ahead, accept, append]

/-- After accepting, the rest is ahead. -/
theorem accept_pending (s : ParseState) (elements : List Element) (rest : List Token) :
    (s.accept elements rest).pending = rest := rfl

/-- A reader that has accepted something is awake, whatever it was before. -/
theorem accept_silent (s : ParseState) (elements : List Element) (rest : List Token) :
    (s.accept elements rest).silent = false := rfl

/-- Taking one more token behind what was accepted adds this token to the children. -/
theorem take_accept (s : ParseState) (elements : List Element) (t : Token) (rest : List Token) :
    (s.accept elements (t :: rest)).take = s.accept (elements ++ [.token t]) rest := by
  simp [take, accept, append]

/-- A kind other than the end is the kind of a token ahead. -/
theorem exists_leaf {s : ParseState} {kind : TokenKind} (here : s.kind = kind)
    (notEnd : kind ≠ .eof) : ∃ (leaf : Leaf kind) (rest : List Token), s.pending = leaf.val :: rest := by
  obtain ⟨t, rest, ahead⟩ := List.exists_cons_of_ne_nil (Rule.pending_ne_nil here notEnd)
  exact ⟨⟨t, (kind_eq ahead).symm.trans here⟩, rest, ahead⟩

/-- Where a rule finds a number, a number token is ahead. The end of the source is no number, so
there is a token at all. -/
theorem exists_number {s : ParseState} (here : s.kind.isNumber = true) :
    ∃ (number : NumberLeaf) (rest : List Token), s.pending = number.val :: rest := by
  have notEnd : s.kind ≠ .eof := by
    intro atEnd
    rw [atEnd] at here
    cases here
  obtain ⟨leaf, rest, ahead⟩ := exists_leaf rfl notEnd
  exact ⟨⟨leaf.val, by rw [leaf.property, here]⟩, rest, ahead⟩

/-- A rule that accepts the children of a node accepts the node. -/
theorem node_eq_accept {s : ParseState} {rule : ParseState → ParseState} {elements : List Element}
    {rest : List Token} (kind : NodeKind)
    (accepted : rule { s with children := [] } = { s with children := [] }.accept elements rest)
    (children : elements ≠ []) :
    s.node kind rule = s.accept [.node (nodeOver kind elements)] rest := by
  simp only [node, accepted, accept, List.nil_append, covering_eq_nodeOver _ _ children]

/-- Whether more was reported afterwards than before. -/
def Complains (s after : ParseState) : Prop :=
  s.reports.length < after.reports.length

/-- What a reader that is awake finds unexpected, it reports. -/
theorem complains_unexpected {s : ParseState} (awake : s.silent = false) (expected : String) :
    Complains s (s.unexpected expected) := by
  simp [Complains, unexpected, report, awake]

/-- A reader that is awake reports a missing name. -/
theorem complains_missing {s : ParseState} (awake : s.silent = false) (what : String) :
    Complains s (s.missing what) := by
  simp [Complains, missing, report, awake]

/-- A report is never taken back. -/
theorem Complains.followed {s middle after : ParseState} (complains : Complains s middle)
    (run : Run middle after) : Complains s after := by
  obtain ⟨added, same, -⟩ := run.added
  unfold Complains at *
  rw [same, List.length_append]
  omega

end ParseState

namespace Rule

open ParseState

/-! ## The end of a statement -/

/-- A semicolon ahead is taken without a report, whatever the rule would skip to. -/
theorem semicolon_accept {s : ParseState} {rest : List Token} (stops : TokenKind → Bool)
    (leaf : Leaf (.punct .semicolon)) (ahead : s.pending = leaf.val :: rest) :
    semicolon stops s = s.accept [.token leaf.val] rest := by
  rw [semicolon, if_pos ((kind_eq ahead).trans leaf.property), take_eq_accept ahead]

/-- Where no semicolon is ahead, a reader that is awake reports that it expected one. The
skipping that follows takes nothing back. -/
theorem semicolon_reads {s : ParseState} (stops : TokenKind → Bool) (awake : s.silent = false) :
    (∃ (leaf : Leaf (.punct .semicolon)) (rest : List Token), s.pending = leaf.val :: rest)
      ∨ Complains s (semicolon stops s) := by
  by_cases here : s.kind = .punct .semicolon
  · exact .inl (exists_leaf here (by decide))
  · right
    rw [semicolon, if_neg here]
    exact (complains_unexpected awake _).followed (.recover _ _)

/-- The ending of a field or a variant is taken as it stands, with a number or without one. The
two cases are told apart by the first token, which is an equals sign or the semicolon. -/
theorem ending_accept {s : ParseState} {rest : List Token} (what : String)
    (stops : TokenKind → Bool) (ending : Ending) (ahead : s.pending = ending.tokens ++ rest) :
    numberAndSemicolon what stops s = s.accept (ending.tokens.map .token) rest := by
  obtain ⟨number, leaf⟩ := ending
  cases number with
  | none =>
    have front : s.pending = leaf.val :: rest := ahead
    have notEquals : s.kind ≠ .punct .equals := by
      rw [kind_eq front, leaf.property]
      decide
    rw [numberAndSemicolon, if_neg notEquals]
    exact semicolon_accept stops leaf front
  | some pair =>
    obtain ⟨equals, number⟩ := pair
    have front : s.pending = equals.val :: number.val :: leaf.val :: rest := ahead
    have isNumber : s.take.kind.isNumber = true := by
      rw [take_eq_accept front]
      exact number.property
    rw [numberAndSemicolon, if_pos ((kind_eq front).trans equals.property), if_pos isNumber,
      take_eq_accept front, take_eq_accept (s := s.accept _ _) rfl,
      semicolon_accept stops leaf (s := ParseState.accept _ _ _) rfl, accept_accept, accept_accept]
    rfl

/-- An ending is ahead or something is reported: the equals sign without a number, or the
missing semicolon. The tokens are looked at one by one, and each that is found is put in front
of what the next rule finds. -/
theorem ending_reads {s : ParseState} (what : String) (stops : TokenKind → Bool)
    (awake : s.silent = false) :
    (∃ (ending : Ending) (rest : List Token), s.pending = ending.tokens ++ rest)
      ∨ Complains s (numberAndSemicolon what stops s) := by
  by_cases here : s.kind = .punct .equals
  · obtain ⟨equals, after, front⟩ := exists_leaf here (by decide)
    have taken := take_eq_accept front
    by_cases isNumber : s.take.kind.isNumber = true
    · rw [numberAndSemicolon, if_pos here, if_pos isNumber]
      obtain ⟨number, further, next⟩ := exists_number isNumber
      have takenTwice := take_eq_accept next
      rcases semicolon_reads (s := s.take.take) stops (by rw [takenTwice]; rfl) with
        ⟨leaf, rest, last⟩ | complains
      · left
        refine ⟨⟨some (equals, number), leaf⟩, rest, ?_⟩
        have afterEquals : after = number.val :: further := by rw [← next, taken]; rfl
        have afterNumber : further = leaf.val :: rest := by rw [← last, takenTwice]; rfl
        rw [front, afterEquals, afterNumber]
        rfl
      · right
        rw [takenTwice, taken] at complains
        rw [takenTwice, taken]
        exact complains
    · right
      rw [numberAndSemicolon, if_pos here, if_neg isNumber, taken]
      exact (complains_unexpected (s := s.accept _ _) rfl _).followed (.recover _ _)
  · rw [numberAndSemicolon, if_neg here]
    rcases semicolon_reads stops awake with ⟨leaf, rest, ahead⟩ | complains
    · exact .inl ⟨⟨none, leaf⟩, rest, ahead⟩
    · exact .inr complains

/-! ## Dotted names -/

/-- Whether a dotted name ends before these tokens. -/
def NotDotted (rest : List Token) : Prop :=
  ∀ t ∈ rest.head?, t.kind ≠ .punct .dot

/-- Where no dot is ahead, a dotted name does not go on. -/
theorem dottedTail_of_notDotted {rest : List Token} (ends : NotDotted rest) :
    dottedTail rest = ⟨[], true, rest⟩ := by
  match rest, ends with
  | [], _ => rfl
  | [t], ends => simp [dottedTail, ends t rfl]
  | t :: u :: more, ends => simp [dottedTail, ends t rfl]

/-- The dots and identifiers of a name are taken as far as they go, and the name is complete. By
induction on the pairs; the last of them is not followed by a dot. -/
theorem dottedTail_accept (more : List (Leaf (.punct .dot) × Leaf .identifier)) {rest : List Token}
    (ends : NotDotted rest) :
    dottedTail (Dotted.tailTokens more ++ rest) = ⟨Dotted.tailTokens more, true, rest⟩ := by
  induction more with
  | nil => exact dottedTail_of_notDotted ends
  | cons pair more ih =>
    obtain ⟨⟨dot, isDot⟩, ⟨name, isName⟩⟩ := pair
    have split : Dotted.tailTokens ((⟨dot, isDot⟩, ⟨name, isName⟩) :: more) ++ rest
        = dot :: name :: (Dotted.tailTokens more ++ rest) := rfl
    rw [split, dottedTail, if_pos isDot, if_pos isName, ih]
    rfl

/-- A complete tail is made of dots with identifiers behind them, and no dot follows it. The
cases are those of the function: a dot without an identifier is the only thing that makes a tail
incomplete. -/
theorem dottedTail_reads {tokens : List Token} (complete : (dottedTail tokens).complete = true) :
    ∃ (more : List (Leaf (.punct .dot) × Leaf .identifier)) (rest : List Token),
      tokens = Dotted.tailTokens more ++ rest ∧ NotDotted rest := by
  fun_induction dottedTail tokens with
  | case1 dot name rest isDot isName ih =>
    obtain ⟨more, left, split, ends⟩ := ih complete
    exact ⟨(⟨dot, isDot⟩, ⟨name, isName⟩) :: more, left, by rw [split]; rfl, ends⟩
  | case2 dot name rest isDot notName => cases complete
  | case3 dot name rest notDot =>
    refine ⟨[], dot :: name :: rest, rfl, ?_⟩
    intro t head
    cases head
    exact notDot
  | case4 dot isDot => cases complete
  | case5 dot notDot =>
    refine ⟨[], [dot], rfl, ?_⟩
    intro t head
    cases head
    exact notDot
  | case6 =>
    refine ⟨[], [], rfl, ?_⟩
    intro t head
    cases head

/-- A dotted name that ends is taken whole, and it is complete. -/
theorem dotted_accept {s : ParseState} {rest : List Token} (name : Dotted)
    (ahead : s.pending = name.tokens ++ rest) (ends : NotDotted rest) :
    s.dotted = (true, s.accept (name.tokens.map .token) rest) := by
  have front : s.pending = name.first.val :: (Dotted.tailTokens name.more ++ rest) := ahead
  rw [ParseState.dotted, take_eq_accept front]
  simp only [accept, dottedTail_accept name.more ends, if_true, ParseState.append, Dotted.tokens,
    List.map_cons, List.append_assoc, List.singleton_append]

/-- From an identifier on there is a whole dotted name, or the name breaks off behind a dot and
this is reported. The identifier is a token that was taken, so the reader is awake there. -/
theorem dotted_reads {s : ParseState} (here : s.kind = .identifier) :
    (s.dotted.1 = true ∧ ∃ (name : Dotted) (rest : List Token),
        s.pending = name.tokens ++ rest ∧ NotDotted rest)
      ∨ s.dotted.1 = false ∧ Complains s s.dotted.2 := by
  obtain ⟨first, after, front⟩ := exists_leaf here (by decide)
  have taken := take_eq_accept front
  have ahead : s.take.pending = after := by rw [taken]; rfl
  cases complete : (dottedTail after).complete with
  | true =>
    left
    obtain ⟨more, rest, split, ends⟩ := dottedTail_reads complete
    refine ⟨by rw [ParseState.dotted, ahead, complete], ⟨first, more⟩, rest, ?_, ends⟩
    rw [front, split]
    rfl
  | false =>
    right
    refine ⟨by rw [ParseState.dotted, ahead, complete], ?_⟩
    have incomplete : (dottedTail s.take.pending).complete = false := by rw [ahead, complete]
    have awake : s.take.silent = false := by rw [taken]; rfl
    simp only [ParseState.dotted, incomplete]
    have complains := complains_unexpected
      (s := { s.take.append ((dottedTail s.take.pending).taken.map .token) with
        pending := (dottedTail s.take.pending).left }) awake (TokenKind.describe .identifier)
    rw [taken] at complains ⊢
    exact complains

/-- A name in the place of a type becomes the node of this type, and no more. -/
theorem typeRef_accept {s : ParseState} {rest : List Token} (name : Dotted)
    (ahead : s.pending = name.tokens ++ rest) (ends : NotDotted rest) :
    s.node .typeRef typeRef = s.accept [.node name.node] rest := by
  refine node_eq_accept .typeRef ?_ (by simp [Dotted.tokens])
  simp only [typeRef, dotted_accept (s := { s with children := [] }) name ahead ends, if_true]

/-- In the place of a type there is a dotted name, or its incompleteness is reported. -/
theorem typeRef_reads {s : ParseState} (here : s.kind = .identifier) :
    (∃ (name : Dotted) (rest : List Token), s.pending = name.tokens ++ rest ∧ NotDotted rest)
      ∨ Complains s (s.node .typeRef typeRef) := by
  rcases dotted_reads (s := { s with children := [] }) here with ⟨-, found⟩ | ⟨incomplete, complains⟩
  · exact .inl found
  · right
    have marked : Complains { s with children := [] } (typeRef { s with children := [] }) := by
      simp only [typeRef, incomplete]
      exact complains.followed (.mark _)
    exact marked

/-! ## Imports -/

/-- What begins with a token other than a dot does not continue a name. -/
theorem notDotted_of_leaf {kind : TokenKind} (leaf : Leaf kind) (rest : List Token)
    (notDot : kind ≠ .punct .dot) : NotDotted (leaf.val :: rest) := by
  intro t head
  cases head
  rw [leaf.property]
  exact notDot

/-- An import is taken as it is written, with a string or with a dotted name as its target. The
semicolon behind it keeps a dotted name from going on. -/
theorem importing_accept {s : ParseState} {rest : List Token} (phrase : Importing)
    (ahead : s.pending = phrase.tokens ++ rest) :
    importing s = s.accept (phrase.tokens.map .token) rest := by
  obtain ⟨keyword, target, leaf⟩ := phrase
  cases target with
  | quoted literal =>
    have front : s.pending = keyword.val :: literal.val :: leaf.val :: rest := ahead
    have isString : (s.accept [.token keyword.val] (literal.val :: leaf.val :: rest)).kind = .string :=
      literal.property
    rw [importing, take_eq_accept front, if_pos isString, take_accept,
      semicolon_accept _ leaf (accept_pending _ _ _), accept_accept]
    rfl
  | dotted name =>
    have front : s.pending = keyword.val :: (name.tokens ++ leaf.val :: rest) := by
      simpa [Importing.tokens, Target.tokens] using ahead
    have isName : (s.accept [.token keyword.val] (name.tokens ++ leaf.val :: rest)).kind
        = .identifier := name.first.property
    have notString : (s.accept [.token keyword.val] (name.tokens ++ leaf.val :: rest)).kind
        ≠ .string := by
      rw [isName]
      decide
    have read := dotted_accept name (accept_pending s [.token keyword.val] _)
      (notDotted_of_leaf leaf rest (by decide))
    rw [importing, take_eq_accept front, if_neg notString, if_pos isName, read]
    simp only [if_true]
    rw [semicolon_accept _ leaf (accept_pending _ _ _), accept_accept, accept_accept]
    simp [Importing.tokens, Target.tokens]

/-- From its keyword on an import is complete, or something is reported. What is missing is the
target, a part of a dotted target, or the semicolon; each is the first deviation after a token
that was taken. -/
theorem importing_reads {s : ParseState} (here : s.kind = .keyword .importing) :
    (∃ (phrase : Importing) (rest : List Token), s.pending = phrase.tokens ++ rest)
      ∨ Complains s (importing s) := by
  obtain ⟨keyword, after, front⟩ := exists_leaf here (by decide)
  rw [importing, take_eq_accept front]
  by_cases isString : (s.accept [.token keyword.val] after).kind = .string
  · rw [if_pos isString]
    obtain ⟨literal, further, next⟩ := exists_leaf isString (by decide)
    rw [take_eq_accept next]
    have further_reads := semicolon_reads declarationStops
      (accept_silent (s.accept [.token keyword.val] after) [.token literal.val] further)
    refine further_reads.imp_left ?_
    rintro ⟨leaf, rest, last⟩
    rw [accept_pending] at next last
    exact ⟨⟨keyword, .quoted literal, leaf⟩, rest, by rw [front, next, last]; rfl⟩
  · rw [if_neg isString]
    by_cases isName : (s.accept [.token keyword.val] after).kind = .identifier
    · rw [if_pos isName]
      rcases dotted_reads isName with ⟨complete, name, rest, split, ends⟩ | ⟨incomplete, complains⟩
      · rw [if_pos complete, dotted_accept name split ends]
        have last_reads := semicolon_reads declarationStops
          (accept_silent (s.accept [.token keyword.val] after) (name.tokens.map .token) rest)
        refine last_reads.imp_left ?_
        rintro ⟨leaf, rest, last⟩
        rw [accept_pending] at split last
        refine ⟨⟨keyword, .dotted name, leaf⟩, rest, ?_⟩
        rw [front, split, last]
        simp [Importing.tokens, Target.tokens]
      · right
        rw [incomplete]
        exact complains.followed (.recover _ _)
    · right
      rw [if_neg isName]
      exact (complains_missing (accept_silent s _ _) _).followed (semicolon_run _ _)

/-! ## Fields and variants -/

/-- A name that is ahead is taken as the name. -/
theorem name_accept {s : ParseState} {rest : List Token} (what : String) (leaf : Leaf .identifier)
    (ahead : s.pending = leaf.val :: rest) : name what s = s.accept [.token leaf.val] rest := by
  rw [name, if_pos ((kind_eq ahead).trans leaf.property), take_eq_accept ahead]

/-- A name is ahead, or a reader that is awake reports that there is none. -/
theorem name_reads {s : ParseState} (what : String) (awake : s.silent = false) :
    (∃ (leaf : Leaf .identifier) (rest : List Token), s.pending = leaf.val :: rest)
      ∨ Complains s (name what s) := by
  by_cases here : s.kind = .identifier
  · exact .inl (exists_leaf here (by decide))
  · right
    rw [name, if_neg here]
    exact complains_missing awake what

/-- What ends a statement goes on with no dot. -/
theorem notDotted_of_ending (ending : Ending) (rest : List Token) :
    NotDotted (ending.tokens ++ rest) := by
  obtain ⟨number, leaf⟩ := ending
  cases number with
  | none => exact notDotted_of_leaf leaf rest (by decide)
  | some pair => exact notDotted_of_leaf pair.1 _ (by decide)

/-- What stands behind the name of a field is taken: its type with the colon, if there is one,
and its ending. Neither way of ending begins with a colon. -/
theorem fieldDetail_accept {s : ParseState} {rest : List Token}
    (type : Option (Leaf (.punct .colon) × Dotted)) (ending : Ending)
    (ahead : s.pending = type.elim [] (fun pair => pair.1.val :: pair.2.tokens)
      ++ ending.tokens ++ rest) :
    fieldDetail s = s.accept (type.elim [] (fun pair => [.token pair.1.val, .node pair.2.node])
      ++ ending.tokens.map .token) rest := by
  cases type with
  | none =>
    have front : s.pending = ending.tokens ++ rest := ahead
    have notColon : s.kind ≠ .punct .colon := by
      obtain ⟨number, leaf⟩ := ending
      cases number with
      | none =>
        rw [kind_eq front, leaf.property]
        decide
      | some pair =>
        rw [kind_eq front, pair.1.property]
        decide
    rw [fieldDetail, if_neg notColon, ending_accept _ _ ending front]
    rfl
  | some pair =>
    obtain ⟨colon, name⟩ := pair
    have front : s.pending = colon.val :: (name.tokens ++ (ending.tokens ++ rest)) := by
      simpa using ahead
    have isName : (s.accept [.token colon.val] (name.tokens ++ (ending.tokens ++ rest))).kind
        = .identifier := name.first.property
    rw [fieldDetail, if_pos ((kind_eq front).trans colon.property), take_eq_accept front,
      if_pos isName,
      typeRef_accept name (accept_pending s _ _) (notDotted_of_ending ending rest),
      ending_accept _ _ ending (accept_pending _ _ _), accept_accept, accept_accept]
    simp

/-- Behind the name of a field there is a type or none, and an ending; or something is reported.
After a colon the type has to follow, so the colon alone decides which way it goes. -/
theorem fieldDetail_reads {s : ParseState} (awake : s.silent = false) :
    (∃ (type : Option (Leaf (.punct .colon) × Dotted)) (ending : Ending) (rest : List Token),
        s.pending = type.elim [] (fun pair => pair.1.val :: pair.2.tokens) ++ ending.tokens ++ rest)
      ∨ Complains s (fieldDetail s) := by
  by_cases here : s.kind = .punct .colon
  · obtain ⟨colon, after, front⟩ := exists_leaf here (by decide)
    rw [fieldDetail, if_pos here, take_eq_accept front]
    by_cases isName : (s.accept [.token colon.val] after).kind = .identifier
    · rw [if_pos isName]
      rcases typeRef_reads isName with ⟨name, further, split, ends⟩ | complains
      · rw [typeRef_accept name split ends]
        have last_reads := ending_reads "a field tag" fieldStops
          (accept_silent (s.accept [.token colon.val] after) [.node name.node] further)
        refine last_reads.imp_left ?_
        rintro ⟨ending, rest, last⟩
        rw [accept_pending] at split last
        exact ⟨some (colon, name), ending, rest, by rw [front, split, last]; simp⟩
      · exact .inr (complains.followed (numberAndSemicolon_run _ _ _))
    · right
      rw [if_neg isName]
      exact (complains_unexpected (accept_silent s _ _) _).followed (.recover _ _)
  · rw [fieldDetail, if_neg here]
    rcases ending_reads "a field tag" fieldStops awake with ⟨ending, rest, ahead⟩ | complains
    · exact .inl ⟨none, ending, rest, ahead⟩
    · exact .inr complains

/-- A reader that is awake takes the modifiers ahead and stays awake, even if
there are none. -/
theorem takeWhile_modifiers {s : ParseState} (awake : s.silent = false)
    (modifiers : List ModifierLeaf) (rest : List Token)
    (ahead : s.pending = modifiers.map Subtype.val ++ rest)
    (ends : rest.takeWhile (TokenKind.isModifier ·.kind) = []) :
    s.takeWhile TokenKind.isModifier = s.accept (modifiers.map fun m => .token m.val) rest := by
  have all : ∀ t ∈ modifiers.map Subtype.val, t.kind.isModifier = true := by
    intro t member
    obtain ⟨m, -, rfl⟩ := List.mem_map.mp member
    exact m.property
  have kept : rest.dropWhile (TokenKind.isModifier ·.kind) = rest := by
    have whole := List.takeWhile_append_dropWhile (p := (TokenKind.isModifier ·.kind)) (l := rest)
    rwa [ends, List.nil_append] at whole
  simp only [ParseState.takeWhile, ahead, List.takeWhile_append_of_pos all, ends,
    List.dropWhile_append_of_pos all, kept, awake, ParseState.append, accept, List.append_nil,
    List.map_map, Bool.false_and, Function.comp_def]

/-- The modifiers ahead, of which there may be none, are taken all together. They are the
longest run of tokens of their kinds. -/
theorem modifiers_read {s : ParseState} (awake : s.silent = false) :
    ∃ (modifiers : List ModifierLeaf) (rest : List Token),
      s.pending = modifiers.map Subtype.val ++ rest
        ∧ s.takeWhile TokenKind.isModifier
          = s.accept (modifiers.map fun m => .token m.val) rest := by
  have all : ∀ t ∈ s.pending.takeWhile (TokenKind.isModifier ·.kind), t.kind.isModifier = true :=
    fun t member => List.mem_takeWhile_imp (p := fun t : Token => t.kind.isModifier) member
  obtain ⟨modifiers, named⟩ : ∃ modifiers : List ModifierLeaf,
      modifiers.map Subtype.val = s.pending.takeWhile (TokenKind.isModifier ·.kind) :=
    ⟨(s.pending.takeWhile (TokenKind.isModifier ·.kind)).pmap Subtype.mk all,
      by simp [List.map_pmap]⟩
  refine ⟨modifiers, s.pending.dropWhile (TokenKind.isModifier ·.kind), ?_, ?_⟩
  · rw [named, List.takeWhile_append_dropWhile]
  · have elements : modifiers.map (fun m => Element.token m.val)
        = (s.pending.takeWhile (TokenKind.isModifier ·.kind)).map .token := by
      rw [← named, List.map_map]
      rfl
    rw [elements]
    simp only [ParseState.takeWhile, ParseState.append, accept, awake, Bool.false_and]

/-- A field is taken without a report: its modifiers up to the keyword, the name, and what
follows the name. -/
theorem field_accept {s : ParseState} {rest : List Token} (awake : s.silent = false)
    (phrase : Phrase.Field) (ahead : s.pending = phrase.tokens ++ rest) :
    field s = s.accept phrase.elements rest := by
  obtain ⟨modifiers, keyword, leaf, type, ending⟩ := phrase
  have front : s.pending = modifiers.map Subtype.val ++ keyword.val :: leaf.val
      :: (type.elim [] (fun pair => pair.1.val :: pair.2.tokens) ++ ending.tokens ++ rest) := by
    simpa [Phrase.Field.tokens, Phrase.Field.typeTokens] using ahead
  have ends : (keyword.val :: leaf.val :: (type.elim [] (fun pair => pair.1.val :: pair.2.tokens)
      ++ ending.tokens ++ rest)).takeWhile (TokenKind.isModifier ·.kind) = [] := by
    rw [List.takeWhile_cons, keyword.property]
    rfl
  rw [field, takeWhile_modifiers awake modifiers _ front ends, unmodifiedField,
    if_pos ((kind_eq (accept_pending s _ _)).trans keyword.property), take_accept,
    name_accept _ leaf (accept_pending s _ _), accept_accept,
    fieldDetail_accept type ending (accept_pending s _ _), accept_accept]
  simp [Phrase.Field.elements, Phrase.Field.typeElements]

/-- Behind the modifiers there is the keyword, the name and the rest of a field, or something is
reported. A missing name does not end the rule; but what was reported stays, whatever is read
after it. -/
theorem unmodifiedField_reads {s : ParseState} (awake : s.silent = false) :
    (∃ (keyword : Leaf (.keyword .field)) (leaf : Leaf .identifier)
        (type : Option (Leaf (.punct .colon) × Dotted)) (ending : Ending) (rest : List Token),
        s.pending = keyword.val :: leaf.val
          :: (type.elim [] (fun pair => pair.1.val :: pair.2.tokens) ++ ending.tokens ++ rest))
      ∨ Complains s (unmodifiedField s) := by
  by_cases here : s.kind = .keyword .field
  · obtain ⟨keyword, after, front⟩ := exists_leaf here (by decide)
    rw [unmodifiedField, if_pos here, take_eq_accept front]
    rcases name_reads "field name" (accept_silent s [.token keyword.val] after) with
      ⟨leaf, further, named⟩ | complains
    · rw [name_accept _ leaf named, accept_accept]
      have detail := fieldDetail_reads
        (accept_silent s ([.token keyword.val] ++ [.token leaf.val]) further)
      refine detail.imp_left ?_
      rintro ⟨type, ending, rest, last⟩
      rw [accept_pending] at named last
      exact ⟨keyword, leaf, type, ending, rest, by rw [front, named, last]⟩
    · exact .inr (complains.followed (fieldDetail_run _))
  · right
    rw [unmodifiedField, if_neg here]
    exact (complains_unexpected awake _).followed (.recover _ _)

/-- A whole field is ahead, or something is reported. Modifiers never give a report, so this is
decided behind them. -/
theorem field_reads {s : ParseState} (awake : s.silent = false) :
    (∃ (phrase : Phrase.Field) (rest : List Token), s.pending = phrase.tokens ++ rest)
      ∨ Complains s (field s) := by
  obtain ⟨modifiers, after, front, read⟩ := modifiers_read awake
  rw [field, read]
  refine (unmodifiedField_reads (accept_silent s _ after)).imp_left ?_
  rintro ⟨keyword, leaf, type, ending, rest, last⟩
  rw [accept_pending] at last
  refine ⟨⟨modifiers, keyword, leaf, type, ending⟩, rest, ?_⟩
  rw [front, last]
  simp [Phrase.Field.tokens, Phrase.Field.typeTokens]

/-- A variant is taken without a report: its name and its ending. -/
theorem variant_accept {s : ParseState} {rest : List Token} (phrase : Phrase.Variant)
    (ahead : s.pending = phrase.tokens ++ rest) :
    variant s = s.accept (phrase.tokens.map .token) rest := by
  have front : s.pending = phrase.name.val :: (phrase.ending.tokens ++ rest) := ahead
  rw [variant, take_eq_accept front, ending_accept _ _ phrase.ending (accept_pending s _ _),
    accept_accept]
  rfl

/-- From its name on a variant is complete, or something is reported. -/
theorem variant_reads {s : ParseState} (here : s.kind = .identifier) :
    (∃ (phrase : Phrase.Variant) (rest : List Token), s.pending = phrase.tokens ++ rest)
      ∨ Complains s (variant s) := by
  obtain ⟨leaf, after, front⟩ := exists_leaf here (by decide)
  rw [variant, take_eq_accept front]
  refine (ending_reads "a variant value" variantStops (accept_silent s _ _)).imp_left ?_
  rintro ⟨ending, rest, last⟩
  rw [accept_pending] at last
  exact ⟨⟨leaf, ending⟩, rest, by rw [front, last]; rfl⟩

/-! ## Bodies and blocks -/

/-- What the loop over the items of a body needs to know of the rule of an item:
it accepts the phrases of a type, and it reads nothing else without a report. -/
structure Body.Reads {Item : Type} (body : Body) (tokens : Item → List Token)
    (node : Item → Node) : Prop where
  starts : ∀ item, ∃ t rest, tokens item = t :: rest
    ∧ t.kind ≠ .punct .rightBrace ∧ body.starts t.kind = true
  accepts : ∀ {s : ParseState} {rest : List Token} (item : Item), s.silent = false →
    s.pending = tokens item ++ rest →
      s.node body.itemKind body.item = s.accept [.node (node item)] rest
  reads : ∀ {s : ParseState}, s.silent = false → body.starts s.kind = true →
    (∃ (item : Item) (rest : List Token), s.pending = tokens item ++ rest)
      ∨ Complains s (s.node body.itemKind body.item)
  runs : body.Runs

/-- A field begins with a modifier or with its keyword. -/
theorem startsField_iff (kind : TokenKind) :
    startsField kind = true ↔ kind.isModifier = true ∨ kind = .keyword .field := by
  simp [startsField]

/-- The body of a message is read in fields. A field begins with a token that starts one and is
not the closing brace, which is how the body tells an item from its end. -/
theorem messageBody_reads : messageBody.Reads Phrase.Field.tokens Phrase.Field.node where
  starts phrase := by
    obtain ⟨modifiers, keyword, leaf, type, ending⟩ := phrase
    cases modifiers with
    | nil =>
      refine ⟨keyword.val, _, rfl, ?_, (startsField_iff _).mpr (.inr keyword.property)⟩
      rw [keyword.property]
      decide
    | cons m more =>
      refine ⟨m.val, _, rfl, ?_, (startsField_iff _).mpr (.inl m.property)⟩
      intro brace
      have isModifier := m.property
      rw [brace] at isModifier
      cases isModifier
  accepts := by
    intro s rest phrase awake ahead
    exact node_eq_accept .field (field_accept (s := { s with children := [] }) awake phrase ahead)
      (by simp [Phrase.Field.elements])
  reads := by
    intro s awake _
    exact field_reads (s := { s with children := [] }) awake
  runs := messageBody_runs

/-- The body of an enum is read in variants, each of which begins with an identifier. -/
theorem enumBody_reads : enumBody.Reads Phrase.Variant.tokens Phrase.Variant.node where
  starts phrase := by
    refine ⟨phrase.name.val, phrase.ending.tokens, rfl, ?_, ?_⟩
    · rw [phrase.name.property]
      decide
    · exact beq_iff_eq.mpr phrase.name.property
  accepts := by
    intro s rest phrase _ ahead
    exact node_eq_accept .variant (variant_accept (s := { s with children := [] }) phrase ahead)
      (by simp [Phrase.Variant.tokens])
  reads := by
    intro s _ starts
    exact variant_reads (s := { s with children := [] }) (beq_iff_eq.mp starts)
  runs := enumBody_runs

section Bodies

variable {Item : Type} {body : Body} {tokens : Item → List Token} {node : Item → Node}

/-- The items of a body are taken one after the other, and the closing brace ends them. By
induction on the items; what an item begins with sends the body to the rule for items. -/
theorem Body.Reads.items_accept (reads : body.Reads tokens node) {rest : List Token}
    (items : List Item) (closing : Leaf (.punct .rightBrace)) {s : ParseState}
    (awake : s.silent = false) (ahead : s.pending = items.flatMap tokens ++ closing.val :: rest) :
    body.items s
      = s.accept (items.map (fun item => .node (node item)) ++ [.token closing.val]) rest := by
  induction items generalizing s with
  | nil =>
    have front : s.pending = closing.val :: rest := ahead
    rw [Body.items_brace front closing.property, take_eq_accept front]
    rfl
  | cons item items ih =>
    have split : s.pending = tokens item ++ (items.flatMap tokens ++ closing.val :: rest) := by
      simpa using ahead
    obtain ⟨t, more, begins, notBrace, starts⟩ := reads.starts item
    have front : s.pending = t :: (more ++ (items.flatMap tokens ++ closing.val :: rest)) := by
      rw [split, begins]
      rfl
    rw [Body.items_item front notBrace starts, reads.accepts item awake split,
      ih (accept_silent s _ _) (accept_pending s _ _), accept_accept]
    rfl

/-- From where a body stands there are items and a closing brace, or something is reported. The
induction follows the body: an item that was read is put in front of those behind it, and every
other step but the closing brace reports at once. -/
theorem Body.Reads.items_reads (reads : body.Reads tokens node) (s : ParseState)
    (awake : s.silent = false) :
    (∃ (items : List Item) (closing : Leaf (.punct .rightBrace)) (rest : List Token),
        s.pending = items.flatMap tokens ++ closing.val :: rest)
      ∨ Complains s (body.items s) := by
  fun_induction Body.items body s with
  | case1 s ahead => exact .inr (complains_unexpected awake _)
  | case2 s t rest ahead brace => exact .inl ⟨[], ⟨t, brace⟩, rest, ahead⟩
  | case3 s t rest ahead notBrace starts _ ih =>
    have starting : body.starts s.kind = true := by rw [kind_eq ahead, starts]
    rcases reads.reads awake starting with ⟨item, further, split⟩ | complains
    · rw [reads.accepts item awake split] at ih ⊢
      refine (ih (accept_silent s _ _)).imp_left ?_
      rintro ⟨items, closing, rest, last⟩
      rw [accept_pending] at last
      exact ⟨item :: items, closing, rest, by rw [split, last]; simp⟩
    · exact .inr (complains.followed (reads.runs.items_run _))
  | case4 s t rest ahead notBrace notItem declaration => exact .inr (complains_unexpected awake _)
  | case5 s t rest ahead notBrace notItem notDeclaration _ ih =>
    right
    exact (complains_unexpected awake _).followed
      ((Run.recover _ _).trans (reads.runs.items_run _))

/-- A block is taken without a report: keyword, name, opening brace, items, closing brace. -/
theorem Body.Reads.block_accept (reads : body.Reads tokens node) {word : Keyword}
    {rest : List Token} {s : ParseState} (what : String) (phrase : Block word Item)
    (ahead : s.pending = phrase.tokens tokens ++ rest) :
    block what body s = s.accept (phrase.elements node) rest := by
  obtain ⟨keyword, leaf, opening, items, closing⟩ := phrase
  have front : s.pending = keyword.val :: leaf.val :: opening.val
      :: (items.flatMap tokens ++ closing.val :: rest) := by
    simpa [Block.tokens] using ahead
  have opens : (s.accept ([.token keyword.val] ++ [.token leaf.val]) (opening.val
      :: (items.flatMap tokens ++ closing.val :: rest))).kind = .punct .leftBrace :=
    opening.property
  rw [block, take_eq_accept front, name_accept what leaf (accept_pending s _ _), accept_accept]
  simp only [opens, if_true]
  rw [take_accept, reads.items_accept items closing (accept_silent s _ _) (accept_pending s _ _),
    accept_accept]
  simp [Block.elements]

/-- From its keyword on a block is complete, or something is reported. Each part is looked for
where the parts before it have ended. -/
theorem Body.Reads.block_reads (reads : body.Reads tokens node) {word : Keyword} {s : ParseState}
    (what : String) (here : s.kind = .keyword word) :
    (∃ (phrase : Block word Item) (rest : List Token), s.pending = phrase.tokens tokens ++ rest)
      ∨ Complains s (block what body s) := by
  obtain ⟨keyword, after, front⟩ := exists_leaf here (by simp)
  rcases name_reads what (accept_silent s [.token keyword.val] after) with
    ⟨leaf, further, named⟩ | complains
  · rw [block, take_eq_accept front, name_accept what leaf named, accept_accept]
    by_cases opens : (s.accept ([.token keyword.val] ++ [.token leaf.val]) further).kind
        = .punct .leftBrace
    · simp only [opens, if_true]
      obtain ⟨opening, inside, next⟩ := exists_leaf opens (by decide)
      rw [take_eq_accept next, accept_accept]
      refine (reads.items_reads _ (accept_silent s _ inside)).imp_left ?_
      rintro ⟨items, closing, rest, last⟩
      rw [accept_pending] at named next last
      refine ⟨⟨keyword, leaf, opening, items, closing⟩, rest, ?_⟩
      rw [front, named, next, last]
      simp [Block.tokens]
    · right
      have complains := complains_unexpected
        (accept_silent s ([.token keyword.val] ++ [.token leaf.val]) further)
        (TokenKind.describe (.punct .leftBrace))
      simp only [opens, if_false]
      split
      · exact complains.followed (reads.runs.items_run _)
      · exact complains.followed (.recover _ _)
  · right
    rw [← take_eq_accept front] at complains
    have later : Complains s.take (block what body s) :=
      complains.followed (reads.runs.block_run_named what s)
    rw [take_eq_accept front] at later
    exact later

end Bodies

/-! ## Declarations and documents -/

/-- The rule of a declaration accepts the phrases of that declaration.

Proof: by the kind of the phrase. The keyword chooses the rule, and the rule accepts what the
phrase has. -/
theorem declaration_accept {s : ParseState} {rest : List Token} (phrase : Phrase.Declaration)
    (ahead : s.pending = phrase.tokens ++ rest) :
    ∃ t more kind rule, s.pending = t :: more ∧ declaration? t.kind = some (kind, rule)
      ∧ s.node kind rule = s.accept [.node phrase.node] rest := by
  cases phrase with
  | importing phrase =>
    refine ⟨phrase.keyword.val, _, .importing, importing, ahead, ?_, ?_⟩
    · rw [phrase.keyword.property]
      rfl
    · exact node_eq_accept .importing
        (importing_accept (s := { s with children := [] }) phrase ahead) (by simp [Importing.tokens])
  | message phrase =>
    refine ⟨phrase.keyword.val, _, .message, message, ahead, ?_, ?_⟩
    · rw [phrase.keyword.property]
      rfl
    · exact node_eq_accept .message (messageBody_reads.block_accept
        (s := { s with children := [] }) _ phrase ahead) (by simp [Block.elements])
  | enum phrase =>
    refine ⟨phrase.keyword.val, _, .enum, enum, ahead, ?_, ?_⟩
    · rw [phrase.keyword.property]
      rfl
    · exact node_eq_accept .enum (enumBody_reads.block_accept
        (s := { s with children := [] }) _ phrase ahead) (by simp [Block.elements])

/-- From the keyword of a declaration on there is a whole declaration, or something is reported.
The keyword chooses the rule, and each rule keeps to its own phrase. -/
theorem declaration_reads {s : ParseState} {kind : NodeKind} {rule : ParseState → ParseState}
    (found : declaration? s.kind = some (kind, rule)) :
    (∃ (phrase : Phrase.Declaration) (rest : List Token), s.pending = phrase.tokens ++ rest)
      ∨ Complains s (s.node kind rule) := by
  unfold declaration? at found
  split at found
  · next here =>
    cases found
    refine (importing_reads (s := { s with children := [] }) here).imp_left ?_
    rintro ⟨phrase, rest, ahead⟩
    exact ⟨.importing phrase, rest, ahead⟩
  · next here =>
    cases found
    refine (messageBody_reads.block_reads (s := { s with children := [] }) _ here).imp_left ?_
    rintro ⟨phrase, rest, ahead⟩
    exact ⟨.message phrase, rest, ahead⟩
  · next here =>
    cases found
    refine (enumBody_reads.block_reads (s := { s with children := [] }) _ here).imp_left ?_
    rintro ⟨phrase, rest, ahead⟩
    exact ⟨.enum phrase, rest, ahead⟩
  · cases found

/-- Declarations that are written one behind the other, with nothing else between them, are
taken one by one until nothing is ahead. -/
theorem declarations_accept (phrases : List Phrase.Declaration) {s : ParseState}
    (awake : s.silent = false) (ahead : s.pending = phrases.flatMap Phrase.Declaration.tokens) :
    declarations s = s.accept (phrases.map fun phrase => .node phrase.node) [] := by
  induction phrases generalizing s with
  | nil =>
    have empty : s.pending = [] := ahead
    rw [declarations_end empty]
    cases s
    simp_all [accept]
  | cons phrase phrases ih =>
    have split : s.pending = phrase.tokens ++ phrases.flatMap Phrase.Declaration.tokens := by
      rw [ahead, List.flatMap_cons]
    obtain ⟨t, more, kind, rule, front, found, accepted⟩ := declaration_accept phrase split
    rw [declarations_found front found, accepted,
      ih (accept_silent s _ _) (accept_pending s _ _), accept_accept]
    rfl

/-- A whole reading that begins awake has phrases ahead and nothing else, or it
makes a report. -/
theorem declarations_reads (s : ParseState) (awake : s.silent = false) :
    (∃ phrases : List Phrase.Declaration, s.pending = phrases.flatMap Phrase.Declaration.tokens)
      ∨ Complains s (declarations s) := by
  fun_induction declarations s with
  | case1 s ahead => exact .inl ⟨[], ahead⟩
  | case2 s t rest ahead kind rule found _ ih =>
    rw [← kind_eq ahead] at found
    rcases declaration_reads found with ⟨phrase, further, split⟩ | complains
    · obtain ⟨u, more, otherKind, otherRule, front, same, accepted⟩ := declaration_accept phrase split
      rw [← kind_eq front, found] at same
      cases same
      rw [accepted] at ih ⊢
      refine (ih (accept_silent s _ _)).imp_left ?_
      rintro ⟨phrases, last⟩
      rw [accept_pending] at last
      exact ⟨phrase :: phrases, by rw [split, last, List.flatMap_cons]⟩
    · exact .inr (complains.followed (declarations_run _))
  | case3 s t rest ahead none_found _ ih =>
    right
    exact (complains_unexpected awake _).followed ((Run.recover _ _).trans (declarations_run _))

end Rule

end MessageSchema
