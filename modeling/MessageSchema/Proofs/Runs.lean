import MessageSchema.Tree.OfTokens

/-!
# Runs of the grammar's rules

A rule of the grammar branches on the token ahead, but whatever branch it takes
it makes the same few steps: it takes a token, reports, skips into an `error`
node, marks a broken type, or builds a node from the steps made below it. `Run`
is the closure of these steps. Each rule is shown once to be a run; what a run
can do is then proved from its steps alone, without opening a rule again. A step
that builds a node keeps the rule that gathered its children.

The first consequences are here: what is ahead only shrinks, the end token stays
the same, and reports are only added, each a report of the grammar about a token
that was ahead.
-/

namespace MessageSchema

/-- The problems that the grammar itself reports. -/
def Problem.isSyntactic : Problem → Bool
  | .unexpectedToken _ _ | .missingName _ => true
  | _ => false

/-- The rule that gathers the children of a node, and what is ahead of it. -/
inductive Rule.Builds : NodeKind → (ParseState → ParseState) → TokenKind → Prop where
  | typeRef : Builds .typeRef typeRef .identifier
  | field {ahead : TokenKind} (starts : startsField ahead = true) : Builds .field field ahead
  | variant : Builds .variant variant .identifier
  | declaration {kind : NodeKind} {rule : ParseState → ParseState} {ahead : TokenKind}
      (found : declaration? ahead = some (kind, rule)) : Builds kind rule ahead

/-- What the rules can do to a state, step by step. -/
inductive Run : ParseState → ParseState → Prop where
  | done (s : ParseState) : Run s s
  | take (s : ParseState) : Run s s.take
  | unexpected (s : ParseState) (expected : String) : Run s (s.unexpected expected)
  | missing (s : ParseState) (what : String) : Run s (s.missing what)
  | recover (stops : TokenKind → Bool) (s : ParseState) : Run s (s.recover stops)
  /-- A broken type ends in an empty `error` node. -/
  | mark (s : ParseState) : Run s (s.append [.node (Node.covering .error [] s.here)])
  /-- A node is built by its rule from a run that begins without children. -/
  | node {kind : NodeKind} {rule : ParseState → ParseState} {s : ParseState}
      (builds : Rule.Builds kind rule s.kind)
      (below : Run { s with children := [] } (rule { s with children := [] })) :
      Run s (s.node kind rule)
  | trans {s middle after : ParseState} (first : Run s middle) (second : Run middle after) :
      Run s after

namespace Run

open ParseState

/-- Tokens that were taken one after the other. A reader that was silent is
awake again as soon as one token is taken. -/
theorem of_pending_append {s : ParseState} {taken rest : List Token}
    (ahead : s.pending = taken ++ rest) :
    Run s { s.append (taken.map .token) with
      pending := rest
      silent := s.silent && taken.isEmpty } := by
  induction taken generalizing s with
  | nil =>
    have same : rest = s.pending := ahead.symm
    subst same
    simpa [ParseState.append] using Run.done s
  | cons t more ih =>
    have step : s.take = { s.append [.token t] with pending := more ++ rest, silent := false } := by
      simp [ParseState.take, ahead]
    have further : Run s.take _ := ih (s := s.take) (by rw [step])
    rw [step] at further
    have first : Run s _ := step ▸ Run.take s
    simpa [ParseState.append] using first.trans further

/-- Taking tokens of some kind is a run: one step for each token taken. -/
theorem takeWhile (p : TokenKind → Bool) (s : ParseState) : Run s (s.takeWhile p) :=
  of_pending_append (List.takeWhile_append_dropWhile (p := (p ·.kind)) (l := s.pending)).symm

/-- Behind the first identifier of a dotted name, nothing but tokens is taken
before the name is found complete or not. -/
theorem dotted {s : ParseState} (ahead : s.pending ≠ []) : Run s s.dotted.2 := by
  obtain ⟨t, rest, split⟩ := List.exists_cons_of_ne_nil ahead
  have awake : s.take.silent = false := by simp [ParseState.take, split]
  have tail := of_pending_append (dottedTail_append s.take.pending).symm
  rw [awake, Bool.false_and] at tail
  have taken : Run s { s.take.append ((dottedTail s.take.pending).taken.map .token) with
      pending := (dottedTail s.take.pending).left } := by
    refine (Run.take s).trans ?_
    simpa [ParseState.append, awake] using tail
  simp only [ParseState.dotted]
  split
  · exact taken
  · exact taken.trans (Run.unexpected _ _)

end Run

namespace Rule

open ParseState

/-! ## The loops, turn by turn -/

section Turns

variable {body : Body} {s : ParseState} {t : Token} {rest : List Token}

/-- At the end of the source a body misses its closing brace. -/
theorem Body.items_end (ahead : s.pending = []) : body.items s = s.unexpected body.closing := by
  rw [Body.items]
  split
  · rfl
  · next other => cases ahead.symm.trans other

/-- At the closing brace a body ends. -/
theorem Body.items_brace (ahead : s.pending = t :: rest) (brace : t.kind = .punct .rightBrace) :
    body.items s = s.take := by
  rw [Body.items]
  split
  · next other => cases ahead.symm.trans other
  · next other =>
    cases ahead.symm.trans other
    rw [dif_pos brace]

/-- At the start of an item a body reads it and goes on. -/
theorem Body.items_item (ahead : s.pending = t :: rest) (notBrace : t.kind ≠ .punct .rightBrace)
    (starts : body.starts t.kind = true) :
    body.items s = body.items (s.node body.itemKind body.item) := by
  rw [Body.items]
  split
  · next other => cases ahead.symm.trans other
  · next other =>
    cases ahead.symm.trans other
    rw [dif_neg notBrace, dif_pos starts]

/-- At a keyword that starts a declaration a body misses its closing brace and leaves the
keyword to the loop over declarations. -/
theorem Body.items_declaration (ahead : s.pending = t :: rest)
    (notBrace : t.kind ≠ .punct .rightBrace) (notItem : ¬ body.starts t.kind = true)
    (declaration : t.kind.startsDeclaration = true) :
    body.items s = s.unexpected body.closing := by
  rw [Body.items]
  split
  · next other => cases ahead.symm.trans other
  · next other =>
    cases ahead.symm.trans other
    rw [dif_neg notBrace, dif_neg notItem, dif_pos declaration]

/-- At any other token a body reports it, skips, and goes on. -/
theorem Body.items_skip (ahead : s.pending = t :: rest) (notBrace : t.kind ≠ .punct .rightBrace)
    (notItem : ¬ body.starts t.kind = true)
    (notDeclaration : ¬ t.kind.startsDeclaration = true) :
    body.items s = body.items ((s.unexpected body.expected).recover body.stops) := by
  rw [Body.items]
  split
  · next other => cases ahead.symm.trans other
  · next other =>
    cases ahead.symm.trans other
    rw [dif_neg notBrace, dif_neg notItem, dif_neg notDeclaration]

/-- With nothing ahead, the loop over declarations is done. -/
theorem declarations_end (ahead : s.pending = []) : declarations s = s := by
  rw [declarations]
  split
  · rfl
  · next other => cases ahead.symm.trans other

/-- At a keyword that starts a declaration the loop reads it and goes on. -/
theorem declarations_found {kind : NodeKind} {rule : ParseState → ParseState}
    (ahead : s.pending = t :: rest) (found : declaration? t.kind = some (kind, rule)) :
    declarations s = declarations (s.node kind rule) := by
  rw [declarations]
  split
  · next other => cases ahead.symm.trans other
  · next other =>
    cases ahead.symm.trans other
    split
    · next same => cases found.symm.trans same; rfl
    · next none_found => cases found.symm.trans none_found

/-- At any other token the loop reports it, skips, and goes on. -/
theorem declarations_skip (ahead : s.pending = t :: rest) (none_found : declaration? t.kind = none) :
    declarations s
      = declarations ((s.unexpected expectedDeclaration).recover declarationStops) := by
  rw [declarations]
  split
  · next other => cases ahead.symm.trans other
  · next other =>
    cases ahead.symm.trans other
    split
    · next found => cases none_found.symm.trans found
    · rfl

/-- The declarations are read to the end. -/
theorem declarations_pending (s : ParseState) : (declarations s).pending = [] := by
  fun_induction declarations s with
  | case1 s ahead => exact ahead
  | case2 s t rest ahead kind rule found _ ih => exact ih
  | case3 s t rest ahead none_found _ ih => exact ih

end Turns

/-! ## Every rule is a run -/

/-- The end of a statement is a run. -/
theorem semicolon_run (stops : TokenKind → Bool) (s : ParseState) : Run s (semicolon stops s) := by
  unfold semicolon
  split
  · exact .take s
  · exact (Run.unexpected s _).trans (.recover _ _)

/-- A number and the end of a statement are a run. -/
theorem numberAndSemicolon_run (what : String) (stops : TokenKind → Bool) (s : ParseState) :
    Run s (numberAndSemicolon what stops s) := by
  unfold numberAndSemicolon
  split
  · split
    · exact (Run.take s).trans ((Run.take _).trans (semicolon_run stops _))
    · exact (Run.take s).trans ((Run.unexpected _ _).trans (.recover _ _))
  · exact semicolon_run stops s

/-- A name, or the report that it is missing, is a run. -/
theorem name_run (what : String) (s : ParseState) : Run s (name what s) := by
  unfold name
  split
  · exact .take s
  · exact .missing s what

/-- A token of a kind other than the end is ahead only if some token is. -/
theorem pending_ne_nil {s : ParseState} {kind : TokenKind} (here : s.kind = kind)
    (notEnd : kind ≠ .eof) : s.pending ≠ [] := by
  intro empty
  apply notEnd
  rw [← here, ParseState.kind, empty]

/-- A type is a run: a dotted name, and the mark behind an incomplete one. -/
theorem typeRef_run {s : ParseState} (here : s.kind = .identifier) : Run s (typeRef s) := by
  have dotted : Run s s.dotted.2 := Run.dotted (pending_ne_nil here (by decide))
  simp only [typeRef]
  split
  · exact dotted
  · exact dotted.trans (.mark _)

/-- An import behind its keyword. -/
theorem importing_run (s : ParseState) : Run s.take (importing s) := by
  simp only [importing]
  split
  · exact (Run.take _).trans (semicolon_run _ _)
  · split
    · next here =>
      have dotted : Run s.take s.take.dotted.2 := Run.dotted (pending_ne_nil here (by decide))
      split
      · exact dotted.trans (semicolon_run _ _)
      · exact dotted.trans (.recover _ _)
    · exact (Run.missing _ _).trans (semicolon_run _ _)

/-- What stands behind the name of a field is a run, in which the node of the type is built. -/
theorem fieldDetail_run (s : ParseState) : Run s (fieldDetail s) := by
  unfold fieldDetail
  split
  · refine (Run.take s).trans ?_
    split
    · next here =>
      have type : Run s.take (s.take.node .typeRef typeRef) :=
        .node (here ▸ .typeRef) (typeRef_run here)
      exact type.trans (numberAndSemicolon_run _ _ _)
    · exact (Run.unexpected _ _).trans (.recover _ _)
  · exact numberAndSemicolon_run _ _ _

/-- A field behind its modifiers is a run. -/
theorem unmodifiedField_run (s : ParseState) : Run s (unmodifiedField s) := by
  unfold unmodifiedField
  split
  · exact (Run.take s).trans ((name_run _ _).trans (fieldDetail_run _))
  · exact (Run.unexpected s _).trans (.recover _ _)

/-- A field is a run. -/
theorem field_run (s : ParseState) : Run s (field s) :=
  (Run.takeWhile _ s).trans (unmodifiedField_run _)

/-- A variant is a run. -/
theorem variant_run (s : ParseState) : Run s (variant s) :=
  (Run.take s).trans (numberAndSemicolon_run _ _ _)

/-- The rule of an item is a run, and it builds the node of the item. -/
structure Body.Runs (body : Body) : Prop where
  item : ∀ s, Run s (body.item s)
  builds : ∀ kind, body.starts kind = true → Builds body.itemKind body.item kind

/-- The body of a message reads its items in runs. -/
theorem messageBody_runs : messageBody.Runs where
  item := field_run
  builds _ starts := .field starts

/-- The body of an enum reads its items in runs. -/
theorem enumBody_runs : enumBody.Runs where
  item := variant_run
  builds _ starts := beq_iff_eq.mp starts ▸ .variant

/-- A body is a run if its items are, by induction on what it reads. -/
theorem Body.Runs.items_run {body : Body} (runs : body.Runs) (s : ParseState) :
    Run s (body.items s) := by
  fun_induction Body.items body s with
  | case1 s ahead => exact .unexpected s _
  | case2 s t rest ahead brace => exact .take s
  | case3 s t rest ahead notBrace starts _ ih =>
    have here : s.kind = t.kind := by rw [ParseState.kind, ahead]
    exact (Run.node (runs.builds _ (here ▸ starts)) (runs.item _)).trans ih
  | case4 s t rest ahead notBrace notItem declaration => exact .unexpected s _
  | case5 s t rest ahead notBrace notItem notDeclaration _ ih =>
    exact (Run.unexpected s _).trans ((Run.recover _ _).trans ih)

/-- A block behind its name. -/
theorem Body.Runs.block_run_named {body : Body} (runs : body.Runs) (what : String)
    (s : ParseState) : Run (name what s.take) (block what body s) := by
  simp only [block]
  split
  · exact (Run.take _).trans (runs.items_run _)
  · refine (Run.unexpected _ (TokenKind.describe (.punct .leftBrace))).trans ?_
    split
    · exact runs.items_run _
    · exact .recover _ _

/-- A block behind its keyword. -/
theorem Body.Runs.block_run {body : Body} (runs : body.Runs) (what : String) (s : ParseState) :
    Run s.take (block what body s) :=
  (name_run what _).trans (runs.block_run_named what s)

/-- A declaration behind its keyword. -/
theorem declaration?_run {kind : TokenKind} {node : NodeKind} {rule : ParseState → ParseState}
    (found : declaration? kind = some (node, rule)) (s : ParseState) : Run s.take (rule s) := by
  unfold declaration? at found
  split at found
  · cases found; exact importing_run s
  · cases found; exact messageBody_runs.block_run _ s
  · cases found; exact enumBody_runs.block_run _ s
  · cases found

/-- The loop over declarations is a run. Each turn of it builds a node, or reports and skips. -/
theorem declarations_run (s : ParseState) : Run s (declarations s) := by
  fun_induction declarations s with
  | case1 s ahead => exact .done s
  | case2 s t rest ahead kind rule found _ ih =>
    have here : s.kind = t.kind := by rw [ParseState.kind, ahead]
    have below := (Run.take { s with children := [] }).trans (declaration?_run found _)
    exact (Run.node (here ▸ .declaration found) below).trans ih
  | case3 s t rest ahead none_found _ ih =>
    exact (Run.unexpected s _).trans ((Run.recover _ _).trans ih)

end Rule

namespace Run

open ParseState

/-! ## What every run does -/

/-- A report leaves the end token. -/
theorem report_last (s : ParseState) (problem : Problem) (span : Span) :
    (s.report problem span).last = s.last := by
  unfold ParseState.report
  split <;> rfl

/-- What is ahead after a run is the end of what was ahead before it. No step puts a token
back. -/
theorem pending_suffix {s after : ParseState} (run : Run s after) :
    after.pending <:+ s.pending := by
  induction run with
  | done s => exact List.suffix_rfl
  | take s => exact s.take_suffix
  | unexpected s expected => exact unexpected_pending s expected ▸ List.suffix_rfl
  | missing s what => exact missing_pending s what ▸ List.suffix_rfl
  | recover stops s => exact recover_suffix stops s
  | mark s => exact List.suffix_rfl
  | node _ _ ih => exact ih
  | trans _ _ first second => exact second.trans first

/-- A run leaves the end token as it is. -/
theorem last_eq {s after : ParseState} (run : Run s after) : after.last = s.last := by
  induction run with
  | done s => rfl
  | take s =>
    unfold ParseState.take
    split <;> rfl
  | unexpected s expected => exact report_last _ _ _
  | missing s what => exact report_last _ _ _
  | recover stops s => rfl
  | mark s => rfl
  | node _ _ ih => exact ih
  | trans _ _ first second => exact second.trans first

/-- A finding that the grammar can make about tokens: one of its own problems, at
one of them or where it starts. -/
structure Reported (tokens : List Token) (d : Diagnostic) : Prop where
  syntactic : d.problem.isSyntactic = true
  placed : ∃ t ∈ tokens, d.span = t.span ∨ d.span = t.span.emptyAtStart

/-- The token that a reader looks at is one ahead or the end token. -/
theorem current_mem (s : ParseState) : s.current ∈ s.pending ++ [s.last] := by
  unfold ParseState.current
  cases s.pending <;> simp

/-- A report adds nothing or itself. -/
theorem report_reports (s : ParseState) (problem : Problem) (span : Span) :
    (s.report problem span).reports = s.reports
      ∨ (s.report problem span).reports = s.reports ++ [⟨problem, span⟩] := by
  unfold ParseState.report
  split
  · exact .inl rfl
  · exact .inr rfl

/-- A report of the grammar about a token ahead adds at most itself, and nothing while the
reader is silent. -/
theorem added_of_report {s : ParseState} {problem : Problem} {span : Span}
    (reported : Reported (s.pending ++ [s.last]) ⟨problem, span⟩) :
    ∃ added, (s.report problem span).reports = s.reports ++ added
      ∧ ∀ d ∈ added, Reported (s.pending ++ [s.last]) d := by
  rcases report_reports s problem span with same | more
  · exact ⟨[], by rw [same, List.append_nil], by simp⟩
  · exact ⟨[⟨problem, span⟩], more, by simpa using reported⟩

/-- Reports are only added, and each is the grammar's own about a token that was
ahead when the run began.

Proof: by induction on the run. A token that a later step reports about was ahead when the run
began, since steps only take from what is ahead. -/
theorem added {s after : ParseState} (run : Run s after) :
    ∃ added, after.reports = s.reports ++ added
      ∧ ∀ d ∈ added, Reported (s.pending ++ [s.last]) d := by
  induction run with
  | done s => exact ⟨[], by simp, by simp⟩
  | take s =>
    refine ⟨[], ?_, by simp⟩
    unfold ParseState.take
    split <;> simp [ParseState.append]
  | unexpected s expected =>
    exact added_of_report ⟨rfl, s.current, current_mem s, .inl rfl⟩
  | missing s what =>
    exact added_of_report ⟨rfl, s.current, current_mem s, .inr rfl⟩
  | recover stops s => exact ⟨[], by simp [ParseState.recover, ParseState.append], by simp⟩
  | mark s => exact ⟨[], by simp [ParseState.append], by simp⟩
  | node _ _ ih => exact ih
  | @trans s middle after first second firstAdded secondAdded =>
    obtain ⟨early, earlySame, earlyReported⟩ := firstAdded
    obtain ⟨late, lateSame, lateReported⟩ := secondAdded
    refine ⟨early ++ late, by rw [lateSame, earlySame, List.append_assoc], ?_⟩
    intro d member
    rcases List.mem_append.mp member with inEarly | inLate
    · exact earlyReported d inEarly
    · -- What is ahead later was ahead already, and the end token stays.
      obtain ⟨syntactic, t, ahead, place⟩ := lateReported d inLate
      refine ⟨syntactic, t, ?_, place⟩
      rw [first.last_eq] at ahead
      rcases List.mem_append.mp ahead with pending | last
      · exact List.mem_append_left _ (first.pending_suffix.mem pending)
      · exact List.mem_append_right _ last

end Run

end MessageSchema
