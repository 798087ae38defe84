import MessageSchema.Proofs.Runs

/-!
# A tree keeps every token

Whatever a rule does with the token ahead, the token ends up below the node
under construction: it is taken as a child, or skipped into an `error` node, and
a report takes none at all. So the leaves gathered so far and the tokens ahead
are together always the same list. When the declarations are read to the end
nothing is ahead any more, and the leaves of the tree are the tokens that the
grammar was given.

What the grammar is given is said here once more, directly of the token list:
the list through its first end token, without layout and stray characters, and
an end token of its own only if the list has none.
-/

namespace MessageSchema

/-! ## What the grammar is given -/

/-- The tokens of a list through its first end token. -/
def throughEnd : List Token → List Token
  | [] => []
  | t :: rest => if t.kind = .eof then [t] else t :: throughEnd rest

/-- The end token behind tokens that have none. -/
def endBehind (tokens : List Token) : Token :=
  ⟨.eof, "", (tokens.getLast?.map Token.pointAfter).getD .origin, none⟩

/-- The tokens that a tree has to keep, the end token included. -/
def keptTokens (tokens : List Token) : List Token :=
  let shown := (throughEnd tokens).filter fun t => !t.kind.isTrivia && t.kind != .error
  if tokens.any (·.kind = .eof) then shown else shown ++ [endBehind shown]

/-- The tokens through the first end token are those before it, and this token if there is
one. -/
theorem throughEnd_eq (tokens : List Token) :
    throughEnd tokens = beforeEnd tokens ++ (tokens.find? (·.kind = .eof)).toList := by
  induction tokens with
  | nil => rfl
  | cons t rest ih =>
    by_cases isEnd : t.kind = .eof
    · simp [throughEnd, beforeEnd, isEnd]
    · rw [beforeEnd] at ih
      simp [throughEnd, beforeEnd, isEnd, ih]

/-- What a tree has to keep is what the grammar is given. If the list has no end token, the one
that is put behind it is the one that the grammar makes up. -/
theorem keptTokens_eq (tokens : List Token) :
    keptTokens tokens = significant tokens ++ [endToken tokens] := by
  have shown : (throughEnd tokens).filter (fun t => !t.kind.isTrivia && t.kind != .error)
      = significant tokens ++ (tokens.find? (·.kind = .eof)).toList.filter
        (·.kind.isSignificant) := by
    rw [throughEnd_eq, List.filter_append]
    rfl
  cases found : tokens.find? (·.kind = .eof) with
  | none =>
    have absent : tokens.any (·.kind = .eof) = false :=
      List.any_eq_false.mpr (List.find?_eq_none.mp found)
    rw [found] at shown
    simp only [keptTokens, shown, absent, endToken, found, endBehind]
    simp
  | some last =>
    have isEnd : last.kind = .eof := by simpa using List.find?_some found
    have present : tokens.any (·.kind = .eof) = true :=
      List.any_eq_true.mpr ⟨last, List.mem_of_find?_eq_some found, decide_eq_true isEnd⟩
    have visible : last.kind.isSignificant = true := by rw [isEnd]; rfl
    rw [found] at shown
    simp only [keptTokens, shown, present, endToken, found]
    simp [visible]

/-! ## What the rules keep -/

/-- The leaves of a node are those of its children, whatever place it covers. -/
theorem Element.leaves_covering (kind : NodeKind) (children : List Element) (fallback : Span) :
    (Element.node (Node.covering kind children fallback)).leaves = Element.leavesOf children := by
  rw [Element.leaves, Node.covering, Node.leaves]

namespace Run

open ParseState

/-- The leaves gathered and the tokens ahead are the same list before and after a
run.

Proof: by induction on the run. A token that is taken goes from the front of one list to the end
of the other, and a report touches neither. -/
theorem leaves_append_pending {s after : ParseState} (run : Run s after) :
    Element.leavesOf after.children ++ after.pending
      = Element.leavesOf s.children ++ s.pending := by
  induction run with
  | done s => rfl
  | take s =>
    unfold ParseState.take
    split
    · rfl
    · next t rest ahead =>
      simp [ParseState.append, ahead, Element.leavesOf_append, Element.leavesOf, Element.leaves]
  | unexpected s expected => rw [ParseState.unexpected, report_children, report_pending]
  | missing s what => rw [ParseState.missing, report_children, report_pending]
  | recover stops s =>
    simp only [ParseState.recover, ParseState.append, Element.leavesOf_append, Element.leavesOf,
      Element.leaves_covering, Element.leavesOf_tokens, List.append_nil, List.append_assoc,
      skipTo_append]
  | mark s =>
    simp only [ParseState.append, Element.leavesOf_append, Element.leavesOf,
      Element.leaves_covering, List.append_nil]
  | node builds below ih =>
    -- The run below the node began without children, so the node has all it took.
    simp only [Element.leavesOf, List.nil_append] at ih
    simp only [ParseState.node, Element.leavesOf_append, Element.leavesOf,
      Element.leaves_covering, List.append_nil, List.append_assoc, ih]
  | trans _ _ first second => exact second.trans first

end Run

/-- Reading a tree loses no token, adds none and keeps their order, whatever the
tokens are: the leaves of the tree are exactly the tokens that it has to keep.

Proof: along a run the leaves gathered and the tokens ahead are always one list. At the end
nothing is ahead, and the root adds the end token. -/
theorem parse_keeps_tokens (tokens : List Token) :
    (parse tokens).tree.leaves = keptTokens tokens := by
  have run := Rule.declarations_run (.start tokens)
  have kept := run.leaves_append_pending
  rw [Rule.declarations_pending, List.append_nil] at kept
  have gathered : Element.leavesOf (Rule.declarations (.start tokens)).children
      = significant tokens := kept
  have last : (Rule.declarations (.start tokens)).last = endToken tokens := run.last_eq
  rw [keptTokens_eq, parse, documentNode, Node.leaves, Element.leavesOf_append, gathered, last]
  rfl

end MessageSchema
