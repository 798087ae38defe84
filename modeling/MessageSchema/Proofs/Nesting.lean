import MessageSchema.Proofs.Runs
import MessageSchema.Proofs.Spans

/-!
# Nodes nest and siblings stay in order

The spans in a tree are made in three ways: a token brings its own, a node covers
its children, and a node without children stands, without width, where the next
token starts. So while a tree is read the children gathered so far are in order
and end before the token ahead, every finished node holds its children in order,
and the tokens ahead are in order as they were from the beginning. Every step of
a run keeps this, whether it takes a token, skips, or closes a node.
-/

namespace MessageSchema

/-- A node that holds its children in order. -/
def Node.InPlace (n : Node) : Prop :=
  InOrder n.span.start n.span.stop (n.children.map Element.span)

/-- A node that covers ordered children lies between the same offsets as they do,
and one without children where it was expected. -/
theorem Node.covering_inOrder {children : List Element} {fallback : Span} {low high : Nat}
    (kind : NodeKind) (ordered : InOrder low high (children.map Element.span))
    (start : fallback.start = low) (stop : fallback.stop = low) :
    InOrder low high [(Node.covering kind children fallback).span]
      ∧ (Node.covering kind children fallback).InPlace := by
  cases children with
  | nil =>
    have empty : InOrder fallback.start fallback.stop [] := Nat.le_of_eq (start.trans stop.symm)
    refine ⟨.singleton (Nat.le_of_eq start.symm) empty ?_, empty⟩
    exact stop ▸ ordered.le
  | cons first rest =>
    obtain ⟨begins, forward, later⟩ := ordered
    obtain ⟨sameStart, ends, covered⟩ := Span.foldl_union_of_inOrder forward later
    have span : (Node.covering kind (first :: rest) fallback).span
        = (rest.map Element.span).foldl Span.union first.span := rfl
    have behind := covered.le
    constructor
    · rw [span]
      exact .singleton (by omega) (by omega) ends
    · rw [InPlace, span]
      exact ⟨Nat.le_of_eq sameStart, forward, covered⟩

namespace ParseState

/-- What is ahead begins with the current token. -/
theorem exists_ahead (s : ParseState) : ∃ more, s.pending ++ [s.last] = s.current :: more := by
  cases ahead : s.pending with
  | nil => exact ⟨[], by rw [current, ahead]; rfl⟩
  | cons t rest => exact ⟨rest ++ [s.last], by rw [current, ahead]; rfl⟩

/-- The children gathered since `low` end before what is ahead, what is ahead ends
before `high`, and both are in order. -/
structure Laid (low high : Nat) (s : ParseState) : Prop where
  gathered : InOrder low s.current.span.start (s.children.map Element.span)
  ahead : InOrder s.current.span.start high ((s.pending ++ [s.last]).map Token.span)
  below : ∀ n ∈ Element.preorderOf s.children, n.InPlace

variable {low high : Nat} {s after : ParseState}

/-- Tokens that were taken lie between the token that was ahead and the one that
is ahead now. -/
theorem Laid.taken (laid : s.Laid low high) {taken : List Token}
    (split : s.pending = taken ++ after.pending) (last : after.last = s.last) :
    InOrder s.current.span.start after.current.span.start (taken.map Token.span)
      ∧ InOrder after.current.span.start high ((after.pending ++ [after.last]).map Token.span) := by
  obtain ⟨more, ahead⟩ := after.exists_ahead
  have whole : s.pending ++ [s.last] = taken ++ after.current :: more := by
    rw [split, ← last, List.append_assoc, ahead]
  have ordered := laid.ahead
  rw [whole, List.map_append, List.map_cons] at ordered
  rw [ahead, List.map_cons]
  exact ordered.split

/-- Nothing changes if only reports are made. -/
theorem Laid.report (laid : s.Laid low high) (problem : Problem) (span : Span) :
    (s.report problem span).Laid low high := by
  unfold ParseState.report
  split
  · exact laid
  · exact ⟨laid.gathered, laid.ahead, laid.below⟩

/-- A child that covers the tokens taken in between. -/
theorem Laid.add (laid : s.Laid low high) {taken : List Token} {child : Element}
    (split : s.pending = taken ++ after.pending) (last : after.last = s.last)
    (children : after.children = s.children ++ [child])
    (placed : InOrder s.current.span.start after.current.span.start (taken.map Token.span) →
      InOrder s.current.span.start after.current.span.start [child.span]
        ∧ ∀ n ∈ child.preorder, n.InPlace) : after.Laid low high := by
  obtain ⟨between, ahead⟩ := laid.taken split last
  obtain ⟨ordered, below⟩ := placed between
  refine ⟨?_, ahead, ?_⟩
  · rw [children, List.map_append]
    exact laid.gathered.append ordered
  · intro n member
    rw [children, Element.preorderOf_concat, List.mem_append] at member
    rcases member with old | new
    · exact laid.below n old
    · exact below n new

end ParseState

/-- The places of tokens are the same when the tokens are children of a node. -/
theorem Element.span_tokens (tokens : List Token) :
    (tokens.map Element.token).map Element.span = tokens.map Token.span := by
  rw [List.map_map]
  rfl

namespace Run

open ParseState

variable {low high : Nat} {s after : ParseState}

/-- An `error` node over skipped tokens is in place. -/
theorem error_placed {taken : List Token} {here next : Nat} {place : Span}
    (start : place.start = here) (stop : place.stop = here)
    (between : InOrder here next (taken.map Token.span)) :
    InOrder here next [(Element.node (Node.covering .error (taken.map .token) place)).span]
      ∧ ∀ n ∈ (Element.node (Node.covering .error (taken.map .token) place)).preorder,
        n.InPlace := by
  rw [← Element.span_tokens] at between
  obtain ⟨ordered, inPlace⟩ := Node.covering_inOrder .error between start stop
  refine ⟨ordered, ?_⟩
  intro n member
  rw [Element.preorder_covering, Element.preorderOf_tokens, List.mem_singleton] at member
  exact member ▸ inPlace

/-- Every step keeps what was gathered and what is ahead in order.

Proof: by induction on the run. Each step puts what it gathers behind what was gathered and
before what is ahead; in a node the children begin at the token ahead, and the node covers them.
-/
theorem laid (run : Run s after) (before : s.Laid low high) : after.Laid low high := by
  induction run generalizing low with
  | done s => exact before
  | take s =>
    cases ahead : s.pending with
    | nil =>
      rw [ParseState.take, ahead]
      exact before
    | cons t rest =>
      have taken : s.take = { s.append [.token t] with pending := rest, silent := false } := by
        simp [ParseState.take, ahead]
      have split : s.pending = [t] ++ s.take.pending := by rw [ahead, taken]; rfl
      have children : s.take.children = s.children ++ [.token t] := by rw [taken]; rfl
      have last : s.take.last = s.last := by rw [taken]; rfl
      refine before.add split last children ?_
      exact fun between => ⟨between, fun n member => absurd member List.not_mem_nil⟩
  | unexpected s expected => exact before.report _ _
  | missing s what => exact before.report _ _
  | recover stops s =>
    exact before.add (skipTo_append stops s.pending).symm rfl rfl (error_placed rfl rfl)
  | mark s =>
    have split : s.pending = [] ++ s.pending := rfl
    exact before.add split rfl rfl (error_placed rfl rfl)
  | @node kind rule s builds below ih =>
    -- Below the node everything begins with the token that is ahead of it.
    have opened : { s with children := [] }.Laid s.current.span.start high :=
      ⟨Nat.le_refl _, before.ahead, fun n member => absurd member List.not_mem_nil⟩
    have inside := ih opened
    have place : s.here.start = s.current.span.start := rfl
    obtain ⟨ordered, inPlace⟩ := Node.covering_inOrder kind inside.gathered place rfl
    refine ⟨?_, inside.ahead, ?_⟩
    · rw [ParseState.node, List.map_append]
      exact before.gathered.append ordered
    · intro n member
      rw [ParseState.node, Element.preorderOf_concat, Element.preorder_covering, List.mem_append,
        List.mem_cons] at member
      rcases member with old | rfl | deeper
      · exact before.below n old
      · exact inPlace
      · exact inside.below n deeper
  | trans _ _ first second => exact second (first before)

end Run

/-! ## The tree of a source -/

/-- Behind all characters of a source the offset is the number of its bytes. -/
theorem Position.offset_end (source : String) :
    (Position.origin.advanceAll source.toList).offset = source.utf8ByteSize := by
  rw [(Shift.advanceAll_offset_line .origin source.toList).1, String.ofList_toList]
  exact Nat.zero_add _

/-- The tokens of a source that the grammar sees are in order from the beginning
of the source to its end, and the end token stands at the end.

Proof: the tokens of the source are in order, and those that the grammar sees are some of them,
followed by the end token. -/
theorem ParseState.laid_start (source : String) :
    (ParseState.start (tokenize source)).Laid 0 source.utf8ByteSize
      ∧ (ParseState.start (tokenize source)).last.span.stop = source.utf8ByteSize := by
  obtain ⟨body, tokens, allRead⟩ := exists_tokensFrom .origin source.toList
  have all := inOrder_tokensFrom .origin source.toList
  rw [tokens, Position.offset_end] at all
  have shown : tokenize source = body.filter (fun t => !t.kind.isTrivia)
      ++ [Token.endAt (Position.origin.advanceAll source.toList)] := by
    rw [tokenize, tokenizeWithTrivia, tokens, List.filter_append]
    rfl
  have shownRead : ∀ t ∈ body.filter (fun t => !t.kind.isTrivia), t.IsRead :=
    fun t member => allRead t (List.mem_filter.mp member).1
  rw [shown, start_of_read shownRead rfl rfl]
  refine ⟨?_, Position.offset_end source⟩
  -- Layout and stray characters are left out, which keeps the others in order.
  have fewer := (List.filter_sublist (p := (·.kind.isSignificant))).trans
    (List.filter_sublist (p := fun t : Token => !t.kind.isTrivia) (l := body))
  have ordered := all.sublist ((fewer.append_right
    [Token.endAt (Position.origin.advanceAll source.toList)]).map Token.span)
  generalize (body.filter fun t => !t.kind.isTrivia).filter (·.kind.isSignificant) = pending
    at ordered ⊢
  obtain ⟨more, ahead⟩ := ParseState.exists_ahead ⟨pending,
    Token.endAt (Position.origin.advanceAll source.toList), [], false, _⟩
  refine ⟨Nat.zero_le _, ?_, fun n member => absurd member List.not_mem_nil⟩
  rw [ahead, List.map_cons]
  rw [ahead, List.map_cons, ← List.nil_append (_ :: _)] at ordered
  exact ordered.split.2

/-- Every node of the tree of a source holds its children in order, and the tree
itself reaches from the beginning of the source to its end.

Proof: the run begins with all tokens in order and ends with nothing ahead, so the children of
the root are in order up to the end token. -/
theorem parseSource_inPlace (source : String) :
    (∀ n ∈ (parseSource source).tree.preorder, n.InPlace)
      ∧ (parseSource source).tree.span = ⟨0, source.utf8ByteSize, 1, 1⟩ := by
  obtain ⟨before, stop⟩ := ParseState.laid_start source
  have run := Rule.declarations_run (.start (tokenize source))
  have laid := run.laid before
  have pending := Rule.declarations_pending (.start (tokenize source))
  rw [← run.last_eq] at stop
  have tree : (parseSource source).tree
      = documentNode (Rule.declarations (.start (tokenize source))).children
        (Rule.declarations (.start (tokenize source))).last := rfl
  rw [tree]
  generalize Rule.declarations (.start (tokenize source)) = s at laid stop pending ⊢
  have current : s.current = s.last := by rw [ParseState.current, pending]; rfl
  have ahead := laid.ahead
  rw [current, pending] at ahead
  refine ⟨?_, by rw [documentNode, stop]⟩
  intro n member
  rw [documentNode, Node.preorder, List.mem_cons] at member
  rcases member with rfl | inside
  · show InOrder 0 s.last.span.stop ((s.children ++ [Element.token s.last]).map Element.span)
    rw [List.map_append, stop]
    have gathered := laid.gathered
    rw [current] at gathered
    exact gathered.append ahead
  · rw [Element.preorderOf_concat, List.mem_append] at inside
    rcases inside with gathered | last
    · exact laid.below n gathered
    · exact absurd last List.not_mem_nil

end MessageSchema
