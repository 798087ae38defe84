import MessageSchema.Proofs.Keywords

/-!
# What is gathered begins at the token ahead

A node covers its children, and one without children stands in front of the token ahead.
So whatever a run gathers first starts, with line and column, where the token ahead
starts: it is this token, a node that begins with it, or an empty node before it. A run
that gathers nothing has not moved.
-/

namespace MessageSchema

/-- What covers ordered spans begins where the first of them begins. -/
theorem Span.emptyAtStart_foldl_union {s : Span} {rest : List Span} {high : Nat}
    (forward : s.start ≤ s.stop) (ordered : InOrder s.stop high rest) :
    (rest.foldl union s).emptyAtStart = s.emptyAtStart := by
  induction rest generalizing s with
  | nil => rfl
  | cons t more ih =>
    obtain ⟨begins, inside, later⟩ := ordered
    have joined : s.union t = ⟨s.start, t.stop, s.line, s.column⟩ :=
      union_of_le (Nat.le_trans forward begins) (Nat.le_trans begins inside)
    rw [List.foldl_cons, joined]
    exact ih (s := ⟨s.start, t.stop, s.line, s.column⟩) (show s.start ≤ t.stop by omega) later

/-- A node begins where the first of its children does, or at the place that it is given if it
has none. -/
theorem Node.covering_emptyAtStart {children : List Element} {fallback place : Span}
    {low high : Nat} (kind : NodeKind) (ordered : InOrder low high (children.map Element.span))
    (first : ∀ e ∈ children.head?, e.span.emptyAtStart = place)
    (empty : fallback.emptyAtStart = place) :
    (Node.covering kind children fallback).span.emptyAtStart = place := by
  cases children with
  | nil => exact empty
  | cons e rest =>
    obtain ⟨-, forward, later⟩ := ordered
    exact (Span.emptyAtStart_foldl_union forward later).trans (first e rfl)

namespace ParseState

/-- A child that begins at the token ahead, and is this token if it is a token. -/
structure BeginsWith (s : ParseState) (e : Element) : Prop where
  place : e.span.emptyAtStart = s.here
  token : ∀ t, e = .token t → s.kind = t.kind

/-- A node that starts at the place of the token ahead is one that begins there: a node need not
be the token. -/
theorem BeginsWith.of_node {s : ParseState} {n : Node} (place : n.span.emptyAtStart = s.here) :
    s.BeginsWith (.node n) := by
  refine ⟨place, fun t same => ?_⟩
  cases same

/-- With the same tokens ahead and the same end token, the place ahead is the same. -/
theorem here_of_pending {s after : ParseState} (pending : after.pending = s.pending)
    (last : after.last = s.last) : after.here = s.here := by
  rw [here, here, current, current, pending, last]

/-- What begins at the token ahead after a step that took nothing begins there before it. -/
theorem BeginsWith.of_pending {s after : ParseState} {e : Element} (begins : after.BeginsWith e)
    (pending : after.pending = s.pending) (last : after.last = s.last) : s.BeginsWith e := by
  have kind : after.kind = s.kind := by rw [ParseState.kind, ParseState.kind, pending]
  exact ⟨begins.place.trans (here_of_pending pending last),
    fun t same => kind ▸ begins.token t same⟩

/-- An `error` node over what is skipped begins with the first token that is skipped. -/
theorem Laid.error_begins {s : ParseState} {low high : Nat} (laid : s.Laid low high)
    {skipped rest : List Token} (split : s.pending = skipped ++ rest) :
    s.BeginsWith (.node (Node.covering .error (skipped.map .token) s.here)) := by
  apply BeginsWith.of_node
  have ordered : InOrder s.current.span.start high
      ((skipped.map Element.token ++ (rest ++ [s.last]).map Element.token).map Element.span) := by
    rw [← List.map_append, Element.span_tokens, ← List.append_assoc, ← split]
    exact laid.ahead
  rw [List.map_append] at ordered
  obtain ⟨_, inside, -⟩ := ordered.exists_middle
  refine Node.covering_emptyAtStart .error inside ?_ rfl
  intro e first
  cases skipped with
  | nil => cases first
  | cons t more =>
    cases Option.some.inj first
    rw [here, current, split]
    rfl

end ParseState

/-- A run that gathers anything gathers first what begins with the token ahead. One that
gathers nothing has come no further.

Proof: by induction on the run. Whatever is skipped begins where it was ahead, and a node begins
where the first of its children does, which is where it was opened. -/
theorem Run.begins {s after : ParseState} (run : Run s after) {low high : Nat}
    (laid : s.Laid low high) :
    (after.children = s.children ∧ after.pending = s.pending)
      ∨ ∃ e more, after.children = s.children ++ e :: more ∧ s.BeginsWith e := by
  induction run generalizing low with
  | done s => exact .inl ⟨rfl, rfl⟩
  | take s =>
    cases ahead : s.pending with
    | nil =>
      rw [ParseState.take, ahead]
      exact .inl ⟨rfl, ahead⟩
    | cons t rest =>
      refine .inr ⟨.token t, [], by simp [ParseState.take, ParseState.append, ahead], ?_, ?_⟩
      · rw [ParseState.here, ParseState.current, ahead]
        rfl
      · rintro _ ⟨⟩
        rw [ParseState.kind, ahead]
  | unexpected s expected =>
    exact .inl ⟨ParseState.report_children _ _ _, ParseState.report_pending _ _ _⟩
  | missing s what =>
    exact .inl ⟨ParseState.report_children _ _ _, ParseState.report_pending _ _ _⟩
  | recover stops s =>
    exact .inr ⟨_, [], rfl, laid.error_begins (ParseState.skipTo_append stops s.pending).symm⟩
  | mark s =>
    have split : s.pending = [] ++ s.pending := rfl
    exact .inr ⟨_, [], rfl, laid.error_begins split⟩
  | @node kind rule s builds below ih =>
    have opened : { s with children := [] }.Laid s.current.span.start high :=
      ⟨Nat.le_refl _, laid.ahead, fun n member => absurd member List.not_mem_nil⟩
    refine .inr ⟨_, [], rfl, .of_node ?_⟩
    refine Node.covering_emptyAtStart kind (below.laid opened).gathered ?_ rfl
    intro e first
    rcases ih opened with ⟨nothing, -⟩ | ⟨e', more, children, begins⟩
    · rw [nothing] at first
      cases first
    · rw [children] at first
      cases Option.some.inj first
      exact begins.place
  | @trans s middle after early late first second =>
    rcases first laid with ⟨same, ahead⟩ | ⟨e, more, children, begins⟩
    · rcases second (early.laid laid) with ⟨still, further⟩ | ⟨e, more, children, begins⟩
      · exact .inl ⟨still.trans same, further.trans ahead⟩
      · exact .inr ⟨e, more, same ▸ children, begins.of_pending ahead early.last_eq⟩
    · obtain ⟨others, later⟩ := late.children_prefix
      refine .inr ⟨e, more ++ others, ?_, begins⟩
      rw [← later, children, List.append_assoc]
      rfl

end MessageSchema
