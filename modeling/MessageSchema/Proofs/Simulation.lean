import MessageSchema.Proofs.Runs

/-!
# Two readings side by side

A rule below a declaration branches on the kinds ahead and on nothing else, and
it cannot tell the end of the source from the keyword of the next declaration:
no rule takes either of them, and all skipping stops before both. So a relation
between the states of two readings that every single step keeps is kept by every
rule. Such a relation is called a simulation.

That each step keeps a relation is for the relation to show; that all rules then
do is shown here, once.
-/

namespace MessageSchema

open ParseState

/-- What is ahead of two readings looks the same to the rules below a declaration. -/
inductive Alike (s other : ParseState) : Prop
  | ended (ahead : s.pending = []) (otherAhead : other.pending = [])
  | next {t u : Token} {rest more : List Token} (ahead : s.pending = t :: rest)
      (otherAhead : other.pending = u :: more) (same : t.kind = u.kind)
  /-- Only the first reading is at its end; the other one is at a declaration. -/
  | bounded {u : Token} {more : List Token} (ahead : s.pending = [])
      (otherAhead : other.pending = u :: more) (declaration : u.kind.startsDeclaration = true)

/-- The kinds of which something is below a declaration: neither the end nor the
keyword of a declaration. -/
def TokenKind.isInner (kind : TokenKind) : Bool :=
  kind != .eof && !kind.startsDeclaration

namespace TokenKind

variable {kind : TokenKind}

/-- Numbers stand below declarations. -/
theorem isInner_of_isNumber (number : kind.isNumber = true) : kind.isInner = true := by
  cases kind with
  | integer => rfl
  | float => rfl
  | _ => exact Bool.noConfusion number

/-- Modifiers stand below declarations: they are three keywords, none of which starts one. -/
theorem isInner_of_isModifier (modifier : kind.isModifier = true) : kind.isInner = true := by
  cases kind with
  | keyword word =>
    cases word with
    | required => rfl
    | optional => rfl
    | repeated => rfl
    | _ => exact Bool.noConfusion modifier
  | _ => exact Bool.noConfusion modifier

/-- What starts a field stands below a declaration. -/
theorem isInner_of_startsField (starts : Rule.startsField kind = true) : kind.isInner = true := by
  rcases Bool.or_eq_true_iff.mp starts with modifier | field
  · exact isInner_of_isModifier modifier
  · rw [beq_iff_eq.mp field]
    rfl

end TokenKind

namespace Alike

variable {s other : ParseState}

/-- Where one reading has a token ahead, so has the other. -/
theorem pending_ne_nil (alike : Alike s other) (ahead : s.pending ≠ []) : other.pending ≠ [] := by
  cases alike with
  | ended empty => exact absurd empty ahead
  | next _ otherAhead => simp [otherAhead]
  | bounded empty => exact absurd empty ahead

/-- A question about the kind ahead has one answer, if it is refused at the end
and before a declaration. -/
theorem apply_eq (alike : Alike s other) (p : TokenKind → Bool)
    (inner : ∀ kind, p kind = true → kind.isInner = true) : p s.kind = p other.kind := by
  have refused : ∀ kind : TokenKind, kind.isInner = false → p kind = false := by
    intro kind outer
    cases answer : p kind with
    | false => rfl
    | true => exact Bool.noConfusion ((inner kind answer).symm.trans outer)
  cases alike with
  | ended ahead otherAhead => simp [ParseState.kind, ahead, otherAhead]
  | next ahead otherAhead same => simp [ParseState.kind, ahead, otherAhead, same]
  | @bounded u more ahead otherAhead declaration =>
    have atEnd : p .eof = false := refused .eof rfl
    have atKeyword : p u.kind = false := refused u.kind (by simp [TokenKind.isInner, declaration])
    simp [ParseState.kind, ahead, otherAhead, atEnd, atKeyword]

/-- Two readings that find the same ahead find the same kind, as long as it is one below a
declaration. -/
theorem kind_iff (alike : Alike s other) {kind : TokenKind} (inner : kind.isInner = true) :
    s.kind = kind ↔ other.kind = kind := by
  have answer := alike.apply_eq (fun k => decide (k = kind)) (by
    intro k same
    rw [of_decide_eq_true same]
    exact inner)
  simpa using answer

end Alike

/-- Where skipping ends in a rule: before every declaration at the latest. -/
def StopsOutside (stops : TokenKind → Bool) : Prop :=
  ∀ kind : TokenKind, kind.startsDeclaration = true → stops kind = true

/-- A relation that the steps of two readings keep. -/
structure Simulation (R : ParseState → ParseState → Prop) : Prop where
  ahead : ∀ {s other : ParseState}, R s other → Alike s other
  take : ∀ {s other : ParseState}, R s other → s.pending ≠ [] → R s.take other.take
  unexpected : ∀ {s other : ParseState} (expected : String), R s other →
    R (s.unexpected expected) (other.unexpected expected)
  missing : ∀ {s other : ParseState} (what : String), R s other →
    R (s.missing what) (other.missing what)
  recover : ∀ {s other : ParseState} {stops : TokenKind → Bool}, StopsOutside stops → R s other →
    R (s.recover stops) (other.recover stops)
  mark : ∀ {s other : ParseState}, R s other →
    R (s.append [.node (Node.covering .error [] s.here)])
      (other.append [.node (Node.covering .error [] other.here)])
  /-- A node begins without children. -/
  opened : ∀ {s other : ParseState}, R s other →
    R { s with children := [] } { other with children := [] }
  /-- The children of a node become a child of the node around it. -/
  closed : ∀ {s other inner otherInner : ParseState} (kind : NodeKind), R s other →
    R inner otherInner →
    R { inner with children := s.children ++ [.node (Node.covering kind inner.children s.here)] }
      { otherInner with
        children := other.children
          ++ [.node (Node.covering kind otherInner.children other.here)] }

/-! ## Steps that are made of steps -/

namespace ParseState

variable {s : ParseState}

/-- Taking tokens of some kind is taking one and then going on, if one is ahead. -/
theorem takeWhile_of_pos {p : TokenKind → Bool} (ahead : s.pending ≠ []) (going : p s.kind = true) :
    s.takeWhile p = s.take.takeWhile p := by
  obtain ⟨t, rest, split⟩ := List.exists_cons_of_ne_nil ahead
  have here : p t.kind = true := by simpa [ParseState.kind, split] using going
  simp [ParseState.takeWhile, ParseState.take, ParseState.append, split, here]

/-- Where none is ahead, no token is taken. -/
theorem takeWhile_of_neg {p : TokenKind → Bool} (stop : s.pending = [] ∨ p s.kind = false) :
    s.takeWhile p = s := by
  obtain ⟨pending, last, children, silent, reports⟩ := s
  cases pending with
  | nil => simp [ParseState.takeWhile, ParseState.append]
  | cons t rest =>
    have here : p t.kind = false := by simpa [ParseState.kind] using stop
    simp [ParseState.takeWhile, ParseState.append, here]

/-- The part of a dotted name behind an identifier. -/
def dottedRest (s : ParseState) : Bool × ParseState :=
  let tail := dottedTail s.pending
  let after := { s.append (tail.taken.map .token) with pending := tail.left }
  (tail.complete,
    if tail.complete then after else after.unexpected (TokenKind.describe .identifier))

/-- A dotted name is its first identifier and then the rest. -/
theorem dotted_eq (s : ParseState) : s.dotted = s.take.dottedRest := rfl

/-- A reader that has taken a token is awake. -/
theorem take_silent (ahead : s.pending ≠ []) : s.take.silent = false := by
  obtain ⟨t, rest, split⟩ := List.exists_cons_of_ne_nil ahead
  simp [ParseState.take, split]

/-- Where no dot is ahead, a dotted name is complete as it is. -/
theorem dottedRest_done (noDot : s.kind ≠ .punct .dot) : s.dottedRest = (true, s) := by
  obtain ⟨pending, last, children, silent, reports⟩ := s
  cases pending with
  | nil => simp [dottedRest, dottedTail, ParseState.append]
  | cons t rest =>
    have here : t.kind ≠ .punct .dot := by simpa [ParseState.kind] using noDot
    cases rest <;> simp [dottedRest, dottedTail, ParseState.append, here]

/-- A dot and an identifier are taken one after the other. -/
theorem dottedRest_more (awake : s.silent = false) (dot : s.kind = .punct .dot)
    (name : s.take.kind = .identifier) : s.dottedRest = s.take.take.dottedRest := by
  cases split : s.pending with
  | nil => simp [ParseState.kind, split] at dot
  | cons t rest =>
    have isDot : t.kind = .punct .dot := by simpa [ParseState.kind, split] using dot
    cases behind : rest with
    | nil => simp [ParseState.take, ParseState.kind, split, behind] at name
    | cons u more =>
      have isName : u.kind = .identifier := by
        simpa [ParseState.take, ParseState.kind, split, behind] using name
      have tail : dottedTail (t :: u :: more) = ⟨t :: u :: (dottedTail more).taken,
          (dottedTail more).complete, (dottedTail more).left⟩ := by
        rw [dottedTail, if_pos isDot, if_pos isName]
      simp [dottedRest, ParseState.take, ParseState.append, split, behind, tail, awake]

/-- A dot without an identifier behind it is taken, and then it is reported that the name breaks
off. -/
theorem dottedRest_broken (awake : s.silent = false) (dot : s.kind = .punct .dot)
    (noName : s.take.kind ≠ .identifier) :
    s.dottedRest = (false, s.take.unexpected (TokenKind.describe .identifier)) := by
  cases split : s.pending with
  | nil => simp [ParseState.kind, split] at dot
  | cons t rest =>
    have isDot : t.kind = .punct .dot := by simpa [ParseState.kind, split] using dot
    cases behind : rest with
    | nil => simp [dottedRest, dottedTail, ParseState.take, ParseState.append, split, behind, isDot,
        awake]
    | cons u more =>
      have isOther : u.kind ≠ .identifier := by
        simpa [ParseState.take, ParseState.kind, split, behind] using noName
      have tail : dottedTail (t :: u :: more) = ⟨[t], false, u :: more⟩ := by
        rw [dottedTail, if_pos isDot, if_neg isOther]
      simp [dottedRest, ParseState.take, ParseState.append, split, behind, tail, awake]

end ParseState

/-! ## Every rule keeps a simulation -/

namespace Simulation

variable {R : ParseState → ParseState → Prop} {s other : ParseState}

/-- What one reading finds ahead the other finds too, if it is of a kind below a declaration. -/
theorem kind_eq (sim : Simulation R) (related : R s other) {kind : TokenKind}
    (here : s.kind = kind) (inner : kind.isInner = true) : other.kind = kind :=
  ((sim.ahead related).kind_iff inner).mp here

/-- What one reading does not find ahead the other does not find either. -/
theorem kind_ne (sim : Simulation R) (related : R s other) {kind : TokenKind}
    (here : s.kind ≠ kind) (inner : kind.isInner = true) : other.kind ≠ kind :=
  fun same => here (((sim.ahead related).kind_iff inner).mpr same)

/-- A token ahead in one reading has its like in the other. -/
theorem exists_next (sim : Simulation R) (related : R s other) {t : Token} {rest : List Token}
    (ahead : s.pending = t :: rest) :
    ∃ u more, other.pending = u :: more ∧ t.kind = u.kind := by
  cases sim.ahead related with
  | ended empty => cases ahead.symm.trans empty
  | @next v u _ more otherFirst otherAhead same =>
    cases ahead.symm.trans otherFirst
    exact ⟨u, more, otherAhead, same⟩
  | bounded empty => cases ahead.symm.trans empty

/-- Related readings take tokens of some kind side by side, until neither finds one. By
induction on what is ahead of the first reading. -/
theorem takeWhile (sim : Simulation R) (related : R s other) {p : TokenKind → Bool}
    (inner : ∀ kind, p kind = true → kind.isInner = true) :
    R (s.takeWhile p) (other.takeWhile p) := by
  induction split : s.pending generalizing s other with
  | nil =>
    have atEnd : p s.kind = false := by
      cases answer : p s.kind with
      | false => rfl
      | true =>
        have impossible := inner s.kind answer
        simp [ParseState.kind, split, TokenKind.isInner] at impossible
    have answer := (sim.ahead related).apply_eq p inner
    rw [takeWhile_of_neg (.inr atEnd), takeWhile_of_neg (.inr (answer.symm.trans atEnd))]
    exact related
  | cons t rest ih =>
    have ahead : s.pending ≠ [] := by simp [split]
    have answer := (sim.ahead related).apply_eq p inner
    cases going : p s.kind with
    | false =>
      rw [takeWhile_of_neg (.inr going), takeWhile_of_neg (.inr (answer.symm.trans going))]
      exact related
    | true =>
      rw [takeWhile_of_pos ahead going, takeWhile_of_pos
        ((sim.ahead related).pending_ne_nil ahead) (answer.symm.trans going)]
      exact ih (sim.take related ahead) (take_cons split)

/-- A dotted name is as complete in one reading as in the other.

Proof: by strong induction on the number of tokens ahead. The two see the same kinds of tokens,
so they decide alike about the dot and about the name behind it. -/
theorem dottedRest (sim : Simulation R) (related : R s other) (awake : s.silent = false)
    (otherAwake : other.silent = false) :
    s.dottedRest.1 = other.dottedRest.1 ∧ R s.dottedRest.2 other.dottedRest.2 := by
  induction size : s.pending.length using Nat.strongRecOn generalizing s other with
  | _ size ih =>
    by_cases dot : s.kind = .punct .dot
    · have otherDot := sim.kind_eq related dot rfl
      have ahead := Rule.pending_ne_nil dot (by decide)
      have taken := sim.take related ahead
      by_cases name : s.take.kind = .identifier
      · have otherName := sim.kind_eq taken name rfl
        have more := Rule.pending_ne_nil name (by decide)
        rw [dottedRest_more awake dot name, dottedRest_more otherAwake otherDot otherName]
        refine ih _ ?_ (sim.take taken more) (take_silent more)
          (take_silent ((sim.ahead taken).pending_ne_nil more)) rfl
        obtain ⟨t, rest, split⟩ := List.exists_cons_of_ne_nil ahead
        have shorter := s.take.take_suffix.length_le
        rw [take_cons split] at shorter
        rw [← size, split, List.length_cons]
        omega
      · have otherName := sim.kind_ne taken name rfl
        rw [dottedRest_broken awake dot name, dottedRest_broken otherAwake otherDot otherName]
        exact ⟨rfl, sim.unexpected _ taken⟩
    · have otherDot := sim.kind_ne related dot rfl
      rw [dottedRest_done dot, dottedRest_done otherDot]
      exact ⟨rfl, related⟩

/-- Related readings take a dotted name side by side, and find both or neither complete. -/
theorem dotted (sim : Simulation R) (related : R s other) (ahead : s.pending ≠ []) :
    s.dotted.1 = other.dotted.1 ∧ R s.dotted.2 other.dotted.2 := by
  rw [dotted_eq, dotted_eq]
  exact sim.dottedRest (sim.take related ahead) (take_silent ahead)
    (take_silent ((sim.ahead related).pending_ne_nil ahead))

/-- Related readings build a node side by side, if the rule below it keeps the relation. -/
theorem node (sim : Simulation R) (related : R s other) (kind : NodeKind)
    {rule : ParseState → ParseState}
    (below : R { s with children := [] } { other with children := [] } →
      R (rule { s with children := [] }) (rule { other with children := [] })) :
    R (s.node kind rule) (other.node kind rule) :=
  sim.closed kind related (below (sim.opened related))

/-- Both readings end the statement, or both report and skip. -/
theorem semicolon (sim : Simulation R) {stops : TokenKind → Bool} (outside : StopsOutside stops)
    (related : R s other) : R (Rule.semicolon stops s) (Rule.semicolon stops other) := by
  unfold Rule.semicolon
  by_cases here : s.kind = .punct .semicolon
  · rw [if_pos here, if_pos (sim.kind_eq related here rfl)]
    exact sim.take related (Rule.pending_ne_nil here (by decide))
  · rw [if_neg here, if_neg (sim.kind_ne related here rfl)]
    exact sim.recover outside (sim.unexpected _ related)

/-- Both readings read a number and end the statement, or both report and skip. What is behind
the equals sign decides, and they find the same there. -/
theorem numberAndSemicolon (sim : Simulation R) (what : String) {stops : TokenKind → Bool}
    (outside : StopsOutside stops) (related : R s other) :
    R (Rule.numberAndSemicolon what stops s) (Rule.numberAndSemicolon what stops other) := by
  unfold Rule.numberAndSemicolon
  by_cases here : s.kind = .punct .equals
  · rw [if_pos here, if_pos (sim.kind_eq related here rfl)]
    have taken := sim.take related (Rule.pending_ne_nil here (by decide))
    have answer := (sim.ahead taken).apply_eq TokenKind.isNumber fun _ => TokenKind.isInner_of_isNumber
    by_cases number : s.take.kind.isNumber = true
    · rw [if_pos number, if_pos (answer.symm.trans number)]
      refine sim.semicolon outside (sim.take taken (Rule.pending_ne_nil rfl ?_))
      intro atEnd
      rw [atEnd] at number
      exact Bool.noConfusion number
    · rw [if_neg number, if_neg (answer ▸ number)]
      exact sim.recover outside (sim.unexpected _ taken)
  · rw [if_neg here, if_neg (sim.kind_ne related here rfl)]
    exact sim.semicolon outside related

/-- Both readings take a name, or both report that it is missing. -/
theorem name (sim : Simulation R) (what : String) (related : R s other) :
    R (Rule.name what s) (Rule.name what other) := by
  unfold Rule.name
  by_cases here : s.kind = .identifier
  · rw [if_pos here, if_pos (sim.kind_eq related here rfl)]
    exact sim.take related (Rule.pending_ne_nil here (by decide))
  · rw [if_neg here, if_neg (sim.kind_ne related here rfl)]
    exact sim.missing what related

/-- Both readings read a type, and both mark it or neither does. -/
theorem typeRef (sim : Simulation R) (related : R s other) (ahead : s.pending ≠ []) :
    R (Rule.typeRef s) (Rule.typeRef other) := by
  obtain ⟨same, after⟩ := sim.dotted related ahead
  simp only [Rule.typeRef, ← same]
  split
  · exact after
  · exact sim.mark after

/-- What ends the skipping of a declaration also ends it at the next keyword. -/
theorem stopsOutside_declaration : StopsOutside Rule.declarationStops :=
  fun _ declaration => declaration

/-- So does what ends the skipping in a field. -/
theorem stopsOutside_field : StopsOutside Rule.fieldStops := by
  intro kind declaration
  simp [Rule.fieldStops, declaration]

/-- So does what ends the skipping in a variant. -/
theorem stopsOutside_variant : StopsOutside Rule.variantStops := by
  intro kind declaration
  simp [Rule.variantStops, declaration]

/-- Both readings read an import in the same way, whichever target it has. -/
theorem importing (sim : Simulation R) (related : R s other) (ahead : s.pending ≠ []) :
    R (Rule.importing s) (Rule.importing other) := by
  have taken := sim.take related ahead
  simp only [Rule.importing]
  by_cases quoted : s.take.kind = .string
  · rw [if_pos quoted, if_pos (sim.kind_eq taken quoted rfl)]
    exact sim.semicolon stopsOutside_declaration
      (sim.take taken (Rule.pending_ne_nil quoted (by decide)))
  · rw [if_neg quoted, if_neg (sim.kind_ne taken quoted rfl)]
    by_cases named : s.take.kind = .identifier
    · rw [if_pos named, if_pos (sim.kind_eq taken named rfl)]
      obtain ⟨same, after⟩ := sim.dotted taken (Rule.pending_ne_nil named (by decide))
      rw [← same]
      split
      · exact sim.semicolon stopsOutside_declaration after
      · exact sim.recover stopsOutside_declaration after
    · rw [if_neg named, if_neg (sim.kind_ne taken named rfl)]
      exact sim.semicolon stopsOutside_declaration (sim.missing _ taken)

/-- Both readings read what stands behind the name of a field, with a type or without. -/
theorem fieldDetail (sim : Simulation R) (related : R s other) :
    R (Rule.fieldDetail s) (Rule.fieldDetail other) := by
  unfold Rule.fieldDetail
  by_cases colon : s.kind = .punct .colon
  · rw [if_pos colon, if_pos (sim.kind_eq related colon rfl)]
    have taken := sim.take related (Rule.pending_ne_nil colon (by decide))
    by_cases named : s.take.kind = .identifier
    · rw [if_pos named, if_pos (sim.kind_eq taken named rfl)]
      refine sim.numberAndSemicolon _ stopsOutside_field (sim.node taken .typeRef fun opened => ?_)
      exact sim.typeRef opened (Rule.pending_ne_nil (s := s.take) named (by decide))
    · rw [if_neg named, if_neg (sim.kind_ne taken named rfl)]
      exact sim.recover stopsOutside_field (sim.unexpected _ taken)
  · rw [if_neg colon, if_neg (sim.kind_ne related colon rfl)]
    exact sim.numberAndSemicolon _ stopsOutside_field related

/-- Both readings read a field behind its modifiers, or both report that the keyword is
missing. -/
theorem unmodifiedField (sim : Simulation R) (related : R s other) :
    R (Rule.unmodifiedField s) (Rule.unmodifiedField other) := by
  unfold Rule.unmodifiedField
  by_cases keyword : s.kind = .keyword .field
  · rw [if_pos keyword, if_pos (sim.kind_eq related keyword rfl)]
    exact sim.fieldDetail (sim.name _ (sim.take related (Rule.pending_ne_nil keyword (by decide))))
  · rw [if_neg keyword, if_neg (sim.kind_ne related keyword rfl)]
    exact sim.recover stopsOutside_field (sim.unexpected _ related)

/-- Both readings read a field. -/
theorem field (sim : Simulation R) (related : R s other) : R (Rule.field s) (Rule.field other) :=
  sim.unmodifiedField (sim.takeWhile related fun _ => TokenKind.isInner_of_isModifier)

/-- Both readings read a variant. -/
theorem variant (sim : Simulation R) (related : R s other) (ahead : s.pending ≠ []) :
    R (Rule.variant s) (Rule.variant other) :=
  sim.numberAndSemicolon _ stopsOutside_variant (sim.take related ahead)

/-- What a body must have for its loop to keep a simulation: nothing in it begins
at a declaration. -/
structure Contained (R : ParseState → ParseState → Prop) (body : Rule.Body) : Prop where
  starts : ∀ kind, body.starts kind = true → kind.isInner = true
  startsUnopened : ∀ kind, body.startsUnopened kind = true → kind.isInner = true
  stops : StopsOutside body.stops
  item : ∀ {s other : ParseState}, R s other → s.pending ≠ [] → R (body.item s) (body.item other)

/-- The body of a message is contained in a declaration: whatever starts or stops something in
it is found by both readings. -/
theorem messageBody (sim : Simulation R) : Contained R Rule.messageBody where
  starts _ := TokenKind.isInner_of_startsField
  startsUnopened _ := TokenKind.isInner_of_startsField
  stops := stopsOutside_field
  item related _ := sim.field related

/-- The body of an enum is contained in a declaration. -/
theorem enumBody (sim : Simulation R) : Contained R Rule.enumBody where
  starts := by
    intro kind starts
    rw [beq_iff_eq.mp starts]
    rfl
  startsUnopened := nofun
  stops := stopsOutside_variant
  item := sim.variant

/-- A body that breaks off at the end of one reading breaks off before the next
declaration of the other.

Proof: the induction follows the body of the first reading. In the cases with a token ahead the
other reading finds one of the same kind. At the end of the first reading the other one is at
its end too, or before the keyword of a declaration, and a body misses its closing brace in
either case. -/
theorem items (sim : Simulation R) {body : Rule.Body} (contained : Contained R body)
    (related : R s other) : R (body.items s) (body.items other) := by
  fun_induction Rule.Body.items body s generalizing other with
  | case1 s ahead =>
    cases sim.ahead related with
    | ended _ otherAhead =>
      rw [Rule.Body.items_end otherAhead]
      exact sim.unexpected _ related
    | next other _ => cases ahead.symm.trans other
    | @bounded u more _ otherAhead declaration =>
      have notItem : ¬ body.starts u.kind = true := by
        intro starts
        have inner := contained.starts u.kind starts
        simp [TokenKind.isInner, declaration] at inner
      have notBrace : u.kind ≠ .punct .rightBrace := by
        intro brace
        rw [brace] at declaration
        exact Bool.noConfusion declaration
      rw [Rule.Body.items_declaration otherAhead notBrace notItem declaration]
      exact sim.unexpected _ related
  | case2 s t rest ahead brace =>
    have taken := sim.take related (by simp [ahead])
    obtain ⟨u, more, otherAhead, same⟩ := sim.exists_next related ahead
    rwa [Rule.Body.items_brace otherAhead (same ▸ brace)]
  | case3 s t rest ahead notBrace starts _ ih =>
    obtain ⟨u, more, otherAhead, same⟩ := sim.exists_next related ahead
    rw [Rule.Body.items_item otherAhead (same ▸ notBrace) (same ▸ starts)]
    apply ih
    refine sim.node related _ fun opened => contained.item opened ?_
    exact fun empty => List.cons_ne_nil t rest (ahead.symm.trans empty)
  | case4 s t rest ahead notBrace notItem declaration =>
    obtain ⟨u, more, otherAhead, same⟩ := sim.exists_next related ahead
    rw [Rule.Body.items_declaration otherAhead (same ▸ notBrace) (same ▸ notItem)
      (same ▸ declaration)]
    exact sim.unexpected _ related
  | case5 s t rest ahead notBrace notItem notDeclaration _ ih =>
    obtain ⟨u, more, otherAhead, same⟩ := sim.exists_next related ahead
    rw [Rule.Body.items_skip otherAhead (same ▸ notBrace) (same ▸ notItem)
      (same ▸ notDeclaration)]
    exact ih (sim.recover contained.stops (sim.unexpected _ related))

/-- Both readings read a block. Where the opening brace is missing, they agree on whether what
comes next could stand in the body. -/
theorem block (sim : Simulation R) (what : String) {body : Rule.Body}
    (contained : Contained R body) (related : R s other) (ahead : s.pending ≠ []) :
    R (Rule.block what body s) (Rule.block what body other) := by
  have named := sim.name what (sim.take related ahead)
  simp only [Rule.block]
  by_cases opening : (Rule.name what s.take).kind = .punct .leftBrace
  · rw [if_pos opening, if_pos (sim.kind_eq named opening rfl)]
    exact sim.items contained (sim.take named (Rule.pending_ne_nil opening (by decide)))
  · rw [if_neg opening, if_neg (sim.kind_ne named opening rfl)]
    have answer := (sim.ahead named).apply_eq
      (fun kind => decide (kind = .punct .rightBrace) || body.startsUnopened kind) (by
        intro kind begins
        rcases Bool.or_eq_true_iff.mp begins with brace | unopened
        · rw [of_decide_eq_true brace]
          rfl
        · exact contained.startsUnopened kind unopened)
    have reported := sim.unexpected (TokenKind.describe (.punct .leftBrace)) named
    rw [answer]
    split
    · exact sim.items contained reported
    · exact sim.recover stopsOutside_declaration reported

/-- The rule of a declaration keeps a simulation if its keyword is ahead. -/
theorem declaration (sim : Simulation R) {kind : TokenKind} {node : NodeKind}
    {rule : ParseState → ParseState} (found : Rule.declaration? kind = some (node, rule))
    (related : R s other) (ahead : s.pending ≠ []) : R (rule s) (rule other) := by
  unfold Rule.declaration? at found
  split at found
  · cases found
    exact sim.importing related ahead
  · cases found
    exact sim.block _ sim.messageBody related ahead
  · cases found
    exact sim.block _ sim.enumBody related ahead
  · cases found

/-- Between declarations the end of the source does count, so the two readings must
come to it together. -/
theorem declarations (sim : Simulation R)
    (together : ∀ {s other : ParseState}, R s other → s.pending = [] → other.pending = [])
    (related : R s other) : R (Rule.declarations s) (Rule.declarations other) := by
  fun_induction Rule.declarations s generalizing other with
  | case1 s ahead =>
    rw [Rule.declarations_end (together related ahead)]
    exact related
  | case2 s t rest ahead kind rule found _ ih =>
    obtain ⟨u, more, otherAhead, same⟩ := sim.exists_next related ahead
    rw [Rule.declarations_found otherAhead (same ▸ found)]
    apply ih
    refine sim.node related kind fun opened => sim.declaration found opened ?_
    exact fun empty => List.cons_ne_nil t rest (ahead.symm.trans empty)
  | case3 s t rest ahead none_found _ ih =>
    obtain ⟨u, more, otherAhead, same⟩ := sim.exists_next related ahead
    rw [Rule.declarations_skip otherAhead (same ▸ none_found)]
    exact ih (sim.recover stopsOutside_declaration (sim.unexpected _ related))

end Simulation

end MessageSchema
