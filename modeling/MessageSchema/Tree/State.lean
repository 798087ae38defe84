import MessageSchema.Tree.Basic

/-!
# The state of reading a tree

Reading goes through the significant tokens once. A state holds the tokens
ahead, the children gathered for the node under construction, and the reports
made so far. After a report the reader is silent until it takes a token again,
or has skipped to the end of a statement, so that one bad stretch is reported
once.

No step adds to the tokens ahead: what is ahead afterwards is a suffix of what
was ahead before. The lemmas at the end say so for each step. A report changes
neither the tokens ahead nor the children.
-/

namespace MessageSchema

/-- Where the reading of a tree has come to. -/
structure ParseState where
  /-- The tokens ahead, the end token excluded. -/
  pending : List Token
  /-- The token at the end of the source. -/
  last : Token
  /-- The children gathered for the node under construction. -/
  children : List Element
  /-- Whether reports are held back. -/
  silent : Bool
  /-- The reports, in the order in which they were made. -/
  reports : List Diagnostic

/-- The tokens up to the next one of a kind in `stops`, or through the next
semicolon, whichever comes first; and the tokens left. -/
def skipTo (stops : TokenKind → Bool) : List Token → List Token × List Token
  | [] => ([], [])
  | t :: rest =>
    if stops t.kind then ([], t :: rest)
    else if t.kind = .punct .semicolon then ([t], rest)
    else (t :: (skipTo stops rest).1, (skipTo stops rest).2)

/-- What was found of a dotted name behind its first identifier. -/
structure DottedTail where
  taken : List Token
  /-- Whether every dot has an identifier behind it. -/
  complete : Bool
  left : List Token

/-- The continuation of a dotted name: pairs of a dot and an identifier. A dot
without an identifier is taken too, and then the name is not complete. -/
def dottedTail : List Token → DottedTail
  | dot :: name :: rest =>
    if dot.kind = .punct .dot then
      if name.kind = .identifier then
        ⟨dot :: name :: (dottedTail rest).taken, (dottedTail rest).complete, (dottedTail rest).left⟩
      else ⟨[dot], false, name :: rest⟩
    else ⟨[], true, dot :: name :: rest⟩
  | [dot] => if dot.kind = .punct .dot then ⟨[dot], false, []⟩ else ⟨[], true, [dot]⟩
  | [] => ⟨[], true, []⟩

namespace ParseState

/-- The token ahead, which is the end token when no other is left. -/
def current (s : ParseState) : Token :=
  s.pending.headD s.last

/-- The kind of the token ahead. -/
def kind (s : ParseState) : TokenKind :=
  match s.pending with
  | [] => .eof
  | t :: _ => t.kind

/-- The place of what is missing ahead. -/
def here (s : ParseState) : Span :=
  s.current.span.emptyAtStart

/-- The state with more children. -/
def append (s : ParseState) (elements : List Element) : ParseState :=
  { s with children := s.children ++ elements }

/-- Takes the token ahead as a child. -/
def take (s : ParseState) : ParseState :=
  match s.pending with
  | [] => s
  | t :: rest => { s.append [.token t] with pending := rest, silent := false }

/-- Takes the tokens ahead as children as long as their kinds have property `p`. -/
def takeWhile (p : TokenKind → Bool) (s : ParseState) : ParseState :=
  let taken := s.pending.takeWhile (p ·.kind)
  { s.append (taken.map .token) with
    pending := s.pending.dropWhile (p ·.kind)
    silent := s.silent && taken.isEmpty }

/-- Makes a report, unless reports are held back. -/
def report (s : ParseState) (problem : Problem) (span : Span) : ParseState :=
  if s.silent then s else { s with silent := true, reports := s.reports ++ [⟨problem, span⟩] }

/-- Reports that something else than the token ahead was expected. -/
def unexpected (s : ParseState) (expected : String) : ParseState :=
  s.report (.unexpectedToken expected s.current.describe) s.current.span

/-- Reports that a name is missing before the token ahead. -/
def missing (s : ParseState) (what : String) : ParseState :=
  s.report (.missingName what) s.here

/-- Skips tokens into an `error` node, which may stay empty. Skipping through a
semicolon ends the bad statement. -/
def recover (stops : TokenKind → Bool) (s : ParseState) : ParseState :=
  let skipped := (skipTo stops s.pending).1
  { s.append [.node (Node.covering .error (skipped.map .token) s.here)] with
    pending := (skipTo stops s.pending).2
    silent := s.silent && !skipped.any (·.kind = .punct .semicolon) }

/-- Takes a dotted name whose first identifier is ahead. The answer says whether
every dot has an identifier behind it; if not, that is reported. -/
def dotted (s : ParseState) : Bool × ParseState :=
  let tail := dottedTail s.take.pending
  let after := { s.take.append (tail.taken.map .token) with pending := tail.left }
  (tail.complete,
    if tail.complete then after else after.unexpected (TokenKind.describe .identifier))

/-- Gathers the children of a new node with `rule` and adds the node itself. -/
def node (kind : NodeKind) (rule : ParseState → ParseState) (s : ParseState) : ParseState :=
  let inner := rule { s with children := [] }
  { inner with children := s.children ++ [.node (Node.covering kind inner.children s.here)] }

/-! ## What is ahead after a step -/

/-- Taking a token leaves those behind it. -/
theorem take_cons {s : ParseState} {t : Token} {rest : List Token} (ahead : s.pending = t :: rest) :
    s.take.pending = rest := by
  simp [take, ahead]

/-- Taking leaves a suffix, also where there is nothing to take. -/
theorem take_suffix (s : ParseState) : s.take.pending <:+ s.pending := by
  unfold take
  split
  · exact List.suffix_rfl
  · next t rest ahead => simp [ahead]

/-- Taking while a property holds leaves a suffix. -/
theorem takeWhile_suffix (p : TokenKind → Bool) (s : ParseState) :
    (s.takeWhile p).pending <:+ s.pending :=
  List.dropWhile_suffix _

/-- A report takes no token. -/
theorem report_pending (s : ParseState) (problem : Problem) (span : Span) :
    (s.report problem span).pending = s.pending := by
  unfold report
  split <;> rfl

/-- A report adds no child. -/
theorem report_children (s : ParseState) (problem : Problem) (span : Span) :
    (s.report problem span).children = s.children := by
  unfold report
  split <;> rfl

/-- A report about an unexpected token takes none, whether it is told or kept back. -/
theorem unexpected_pending (s : ParseState) (expected : String) :
    (s.unexpected expected).pending = s.pending :=
  report_pending _ _ _

/-- A report about a missing name takes no token. -/
theorem missing_pending (s : ParseState) (what : String) :
    (s.missing what).pending = s.pending :=
  report_pending _ _ _

/-- What is skipped and what is left make up the tokens. -/
theorem skipTo_append (stops : TokenKind → Bool) (tokens : List Token) :
    (skipTo stops tokens).1 ++ (skipTo stops tokens).2 = tokens := by
  fun_induction skipTo stops tokens <;> simp_all

/-- What skipping leaves is a suffix. -/
theorem skipTo_suffix (stops : TokenKind → Bool) (tokens : List Token) :
    (skipTo stops tokens).2 <:+ tokens :=
  ⟨_, skipTo_append stops tokens⟩

/-- Skipping under an error node leaves a suffix of what was pending. -/
theorem recover_suffix (stops : TokenKind → Bool) (s : ParseState) :
    (s.recover stops).pending <:+ s.pending :=
  skipTo_suffix stops s.pending

/-- Recovery takes the token ahead unless it may stop there. -/
theorem recover_shorter {stops : TokenKind → Bool} {s : ParseState} {t : Token}
    {rest : List Token} (ahead : s.pending = t :: rest) (going : stops t.kind = false) :
    (s.recover stops).pending.length < s.pending.length := by
  have left : (s.recover stops).pending = (skipTo stops s.pending).2 := rfl
  rw [left, ahead, skipTo]
  simp only [going, Bool.false_eq_true, if_false]
  split
  · simp
  · have shorter := (skipTo_suffix stops rest).length_le
    simp only [List.length_cons]
    omega

/-- A tail of dots and names, and what it leaves, make up the tokens. -/
theorem dottedTail_append (tokens : List Token) :
    (dottedTail tokens).taken ++ (dottedTail tokens).left = tokens := by
  fun_induction dottedTail tokens <;> simp_all

/-- Behind a dotted name is pending what its tail leaves. -/
theorem dotted_pending (s : ParseState) :
    s.dotted.2.pending = (dottedTail s.take.pending).left := by
  simp only [dotted]
  split
  · rfl
  · rw [unexpected_pending]

/-- A dotted name leaves a suffix of what was pending. -/
theorem dotted_suffix (s : ParseState) : s.dotted.2.pending <:+ s.pending := by
  rw [dotted_pending]
  exact List.IsSuffix.trans ⟨_, dottedTail_append s.take.pending⟩ s.take_suffix

/-- A rule that is run to make a node takes what it takes without one. -/
theorem node_pending (kind : NodeKind) (rule : ParseState → ParseState) (s : ParseState) :
    (s.node kind rule).pending = (rule { s with children := [] }).pending := rfl

end ParseState

end MessageSchema
