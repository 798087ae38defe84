import MessageSchema.Proofs.Shift
import MessageSchema.Proofs.Simulation

/-!
# Reading up to a boundary and behind it

The reading of some tokens by themselves is related to the reading of the same
tokens with a declaration behind them. As long as tokens are ahead the two do the
same; where the first comes to its end the second is before the keyword, and no
rule goes beyond that. What can differ is one report, made at the boundary: one
reading finds the end of the source there, the other the keyword.

From the keyword on, the reading is that of a source which was moved there.
-/

namespace MessageSchema

open ParseState

/-! ## Up to the boundary -/

/-- Reports of one cause at the boundary: where one reading comes to the end token
`last`, the other one comes to the keyword `next`. -/
inductive AtBoundary (last next : Token) : Diagnostic → Diagnostic → Prop
  | missing (what : String) :
      AtBoundary last next ⟨.missingName what, last.span.emptyAtStart⟩
        ⟨.missingName what, last.span.emptyAtStart⟩
  | unexpected (expected : String) :
      AtBoundary last next ⟨.unexpectedToken expected last.describe, last.span⟩
        ⟨.unexpectedToken expected next.describe, next.span⟩

/-- What two readings have reported, each besides what it began with. Where the
boundary was reported, both readings are `stopped`: that report is the last one. -/
inductive SameReports (last next : Token) (base otherBase : List Diagnostic) (stopped : Prop) :
    List Diagnostic → List Diagnostic → Prop
  | same (added : List Diagnostic) (early : ∀ d ∈ added, d.span.start < last.span.start) :
      SameReports last next base otherBase stopped (base ++ added) (otherBase ++ added)
  | boundary (added : List Diagnostic) (early : ∀ d ∈ added, d.span.start < last.span.start)
      {d e : Diagnostic} (retold : AtBoundary last next d e) (isStopped : stopped) :
      SameReports last next base otherBase stopped (base ++ added ++ [d]) (otherBase ++ added ++ [e])

/-- A reading of tokens that end in `last`, and a reading of the same tokens with
`next` and `more` behind them. -/
structure Bounded (last next otherLast : Token) (more : List Token)
    (base otherBase : List Diagnostic) (s other : ParseState) : Prop where
  pending : other.pending = s.pending ++ next :: more
  last_eq : s.last = last
  otherLast_eq : other.last = otherLast
  children : other.children = s.children
  silent : other.silent = s.silent
  early : ∀ t ∈ s.pending, t.span.start < last.span.start
  reports : SameReports last next base otherBase (s.pending = [] ∧ s.silent = true)
    s.reports other.reports

namespace SameReports

variable {last next : Token} {base otherBase reports otherReports : List Diagnostic}
  {stopped after : Prop}

/-- Nothing is reported yet. -/
theorem refl (last next : Token) (base otherBase : List Diagnostic) (stopped : Prop) :
    SameReports last next base otherBase stopped base otherBase := by
  have none_added : SameReports last next base otherBase stopped (base ++ []) (otherBase ++ []) :=
    .same [] (by simp)
  simpa using none_added

/-- A weaker condition for having stopped keeps what two lists of reports have in common. -/
theorem mono (told : SameReports last next base otherBase stopped reports otherReports)
    (kept : stopped → after) : SameReports last next base otherBase after reports otherReports := by
  cases told with
  | same added early => exact .same added early
  | boundary added early retold isStopped => exact .boundary added early retold (kept isStopped)

/-- A report away from the boundary is the same in both readings. -/
theorem report_same (told : SameReports last next base otherBase stopped reports otherReports)
    (going : ¬ stopped) {d : Diagnostic} (early : d.span.start < last.span.start) :
    SameReports last next base otherBase after (reports ++ [d]) (otherReports ++ [d]) := by
  cases told with
  | same added earlier =>
    rw [List.append_assoc, List.append_assoc]
    refine .same (added ++ [d]) ?_
    intro e member
    rcases List.mem_append.mp member with inside | new
    · exact earlier e inside
    · exact List.mem_singleton.mp new ▸ early
  | boundary _ _ _ isStopped => exact absurd isStopped going

/-- Two readings that both go on and then report the boundary have stopped there. -/
theorem report_boundary (told : SameReports last next base otherBase stopped reports otherReports)
    (going : ¬ stopped) {d e : Diagnostic} (retold : AtBoundary last next d e) (isStopped : after) :
    SameReports last next base otherBase after (reports ++ [d]) (otherReports ++ [e]) := by
  cases told with
  | same added early => exact .boundary added early retold isStopped
  | boundary _ _ _ already => exact absurd already going

end SameReports

/-- Skipping that stops before a token does not see what is behind it. -/
theorem skipTo_append_of_stop {stops : TokenKind → Bool} {next : Token}
    (stop : stops next.kind = true) (tokens more : List Token) :
    skipTo stops (tokens ++ next :: more)
      = ((skipTo stops tokens).1, (skipTo stops tokens).2 ++ next :: more) := by
  fun_induction skipTo stops tokens with
  | case1 => rw [List.nil_append, skipTo, if_pos stop]
  | case2 t rest here => rw [List.cons_append, skipTo, if_pos here]
  | case3 t rest going semicolon =>
    rw [List.cons_append, skipTo, if_neg going, if_pos semicolon]
  | case4 t rest going noSemicolon ih =>
    rw [List.cons_append, skipTo, if_neg going, if_neg noSemicolon, ih]

/-- A reading of tokens, and one of the same tokens with `next` and `more` behind
them. -/
def Fenced (next : Token) (more : List Token) (s other : ParseState) : Prop :=
  other.pending = s.pending ++ next :: more

namespace Fenced

variable {next : Token} {more : List Token} {s other : ParseState}

/-- Readings with a fence behind one of them find the same ahead. Where the one is at its end,
the other one is before a keyword that starts a declaration. -/
theorem ahead (fenced : Fenced next more s other) (keyword : next.kind.startsDeclaration = true) :
    Alike s other := by
  unfold Fenced at fenced
  cases split : s.pending with
  | nil =>
    rw [split] at fenced
    exact .bounded split fenced keyword
  | cons t rest =>
    rw [split] at fenced
    exact .next split fenced rfl

/-- As long as tokens are ahead, taking one keeps the fence where it is. -/
theorem take (fenced : Fenced next more s other) (ahead : s.pending ≠ []) :
    Fenced next more s.take other.take := by
  obtain ⟨t, rest, split⟩ := List.exists_cons_of_ne_nil ahead
  have otherSplit : other.pending = t :: (rest ++ next :: more) := by
    rw [fenced, split, List.cons_append]
  rw [Fenced, take_cons split, take_cons otherSplit]

/-- A report does not move a fence, whatever the two readings report. -/
theorem report (fenced : Fenced next more s other) (problem otherProblem : Problem)
    (span otherSpan : Span) :
    Fenced next more (s.report problem span) (other.report otherProblem otherSpan) := by
  rw [Fenced, report_pending, report_pending]
  exact fenced

/-- Skipping stops at the fence at the latest, if the token there is one to stop at. -/
theorem recover (fenced : Fenced next more s other) {stops : TokenKind → Bool}
    (stop : stops next.kind = true) : Fenced next more (s.recover stops) (other.recover stops) := by
  have left : (other.recover stops).pending = (skipTo stops other.pending).2 := rfl
  rw [Fenced, left, fenced, skipTo_append_of_stop stop]
  rfl

/-- Reading before a keyword is a simulation. -/
theorem simulation (keyword : next.kind.startsDeclaration = true) :
    Simulation (Fenced next more) where
  ahead fenced := fenced.ahead keyword
  take fenced := fenced.take
  unexpected _ fenced := fenced.report _ _ _ _
  missing _ fenced := fenced.report _ _ _ _
  recover outside fenced := fenced.recover (outside _ keyword)
  mark fenced := fenced
  opened fenced := fenced
  closed _ _ below := below

end Fenced

namespace Bounded

variable {last next otherLast : Token} {more : List Token} {base otherBase : List Diagnostic}
  {s other inner otherInner : ParseState}

/-- Bounded readings find the same ahead. -/
theorem ahead (related : Bounded last next otherLast more base otherBase s other)
    (declaration : next.kind.startsDeclaration = true) : Alike s other :=
  Fenced.ahead related.pending declaration

/-- Bounded readings stand at the same place, also at the boundary: the token there starts where
the end token of the shorter source does. -/
theorem here_eq (related : Bounded last next otherLast more base otherBase s other)
    (place : next.span.emptyAtStart = last.span.emptyAtStart) : other.here = s.here := by
  rw [ParseState.here, ParseState.here, ParseState.current, ParseState.current, related.pending]
  cases s.pending with
  | nil =>
    rw [related.last_eq]
    exact place
  | cons t rest => rfl

/-- As long as tokens are ahead, both readings take the same one and remain bounded. The token
was before the boundary, so neither reading has stopped. -/
theorem take (related : Bounded last next otherLast more base otherBase s other)
    (ahead : s.pending ≠ []) :
    Bounded last next otherLast more base otherBase s.take other.take := by
  obtain ⟨t, rest, split⟩ := List.exists_cons_of_ne_nil ahead
  have otherSplit : other.pending = t :: (rest ++ next :: more) := by
    rw [related.pending, split]
    rfl
  rw [ParseState.take, split, ParseState.take, otherSplit]
  constructor
  case pending => rfl
  case last_eq => exact related.last_eq
  case otherLast_eq => exact related.otherLast_eq
  case children => exact congrArg (· ++ [Element.token t]) related.children
  case silent => rfl
  case early =>
    intro u member
    exact related.early u (split ▸ List.mem_cons_of_mem t member)
  case reports => exact related.reports.mono fun stopped => absurd stopped.1 ahead

/-- Reports made by both readings, which agree away from the boundary. -/
theorem report (related : Bounded last next otherLast more base otherBase s other)
    {problem otherProblem : Problem} {span otherSpan : Span}
    (away : s.pending ≠ [] →
      problem = otherProblem ∧ span = otherSpan ∧ span.start < last.span.start)
    (retold : s.pending = [] → AtBoundary last next ⟨problem, span⟩ ⟨otherProblem, otherSpan⟩) :
    Bounded last next otherLast more base otherBase
      (s.report problem span) (other.report otherProblem otherSpan) := by
  rw [ParseState.report, ParseState.report, related.silent]
  split
  · exact related
  · next awake =>
    have going : ¬ (s.pending = [] ∧ s.silent = true) := fun stopped => awake stopped.2
    refine { related with silent := rfl, reports := ?_ }
    by_cases ahead : s.pending = []
    · exact related.reports.report_boundary going (retold ahead) ⟨ahead, rfl⟩
    · obtain ⟨rfl, rfl, early⟩ := away ahead
      exact related.reports.report_same going early

/-- What is unexpected is reported by both: before the boundary in the same words at the same
place, at the boundary each in its own words. -/
theorem unexpected (related : Bounded last next otherLast more base otherBase s other)
    (expected : String) :
    Bounded last next otherLast more base otherBase
      (s.unexpected expected) (other.unexpected expected) := by
  apply related.report
  · intro ahead
    obtain ⟨t, rest, split⟩ := List.exists_cons_of_ne_nil ahead
    have early := related.early t (by simp [split])
    simpa [ParseState.current, related.pending, split] using early
  · intro ahead
    simp only [ParseState.current, related.pending, ahead, related.last_eq]
    exact .unexpected expected

/-- A missing name is reported by both at the same place. At the boundary that place is the
start of the keyword, where the shorter source ends. -/
theorem missing (related : Bounded last next otherLast more base otherBase s other)
    (place : next.span.emptyAtStart = last.span.emptyAtStart) (what : String) :
    Bounded last next otherLast more base otherBase (s.missing what) (other.missing what) := by
  rw [ParseState.missing, ParseState.missing, related.here_eq place]
  apply related.report
  · intro ahead
    obtain ⟨t, rest, split⟩ := List.exists_cons_of_ne_nil ahead
    have early := related.early t (by simp [split])
    simpa [ParseState.here, ParseState.current, Span.emptyAtStart, split] using early
  · intro ahead
    simp only [ParseState.here, ParseState.current, ahead, related.last_eq]
    exact .missing what

/-- Both readings skip the same tokens and stop at the boundary at the latest. Where nothing was
skipped, they remain as silent as they were. -/
theorem recover (related : Bounded last next otherLast more base otherBase s other)
    (place : next.span.emptyAtStart = last.span.emptyAtStart) {stops : TokenKind → Bool}
    (stop : stops next.kind = true) :
    Bounded last next otherLast more base otherBase (s.recover stops) (other.recover stops) := by
  rw [ParseState.recover, ParseState.recover, related.here_eq place, related.pending,
    skipTo_append_of_stop stop]
  constructor
  case pending => rfl
  case last_eq => exact related.last_eq
  case otherLast_eq => exact related.otherLast_eq
  case children => exact congrArg (· ++ _) related.children
  case silent => exact congrArg (· && _) related.silent
  case early =>
    intro t member
    exact related.early t ((skipTo_suffix stops s.pending).mem member)
  case reports =>
    apply related.reports.mono
    rintro ⟨ahead, silent⟩
    simp [ahead, silent, skipTo]

/-- What is ahead and what was reported does not depend on the children. -/
theorem withChildren (related : Bounded last next otherLast more base otherBase s other)
    {children otherChildren : List Element} (same : otherChildren = children) :
    Bounded last next otherLast more base otherBase
      { s with children := children } { other with children := otherChildren } :=
  { related with children := same }

/-- Reading up to the boundary is a simulation. -/
theorem simulation (declaration : next.kind.startsDeclaration = true)
    (place : next.span.emptyAtStart = last.span.emptyAtStart) :
    Simulation (Bounded last next otherLast more base otherBase) where
  ahead related := related.ahead declaration
  take related := related.take
  unexpected expected related := related.unexpected expected
  missing what related := related.missing place what
  recover outside related := related.recover place (outside _ declaration)
  mark {s other} related := by
    apply related.withChildren
    rw [related.here_eq place, related.children]
  opened related := related.withChildren rfl
  closed kind related below := by
    apply below.withChildren
    rw [related.here_eq place, related.children, below.children]

/-- Up to the boundary the declarations are read alike; there the second reading
goes on. -/
theorem declarations (declaration : next.kind.startsDeclaration = true)
    (place : next.span.emptyAtStart = last.span.emptyAtStart)
    (related : Bounded last next otherLast more base otherBase s other) :
    ∃ reached, Rule.declarations other = Rule.declarations reached
      ∧ Bounded last next otherLast more base otherBase (Rule.declarations s) reached := by
  have sim : Simulation (Bounded last next otherLast more base otherBase) :=
    simulation declaration place
  fun_induction Rule.declarations s generalizing other with
  | case1 s ahead => exact ⟨other, rfl, related⟩
  | case2 s t rest ahead kind rule found _ ih =>
    obtain ⟨u, others, otherAhead, same⟩ := sim.exists_next related ahead
    rw [Rule.declarations_found otherAhead (same ▸ found)]
    apply ih
    refine sim.node related kind fun opened => sim.declaration found opened ?_
    exact fun empty => List.cons_ne_nil t rest (ahead.symm.trans empty)
  | case3 s t rest ahead none_found _ ih =>
    obtain ⟨u, others, otherAhead, same⟩ := sim.exists_next related ahead
    rw [Rule.declarations_skip otherAhead (same ▸ none_found)]
    exact ih (sim.recover Simulation.stopsOutside_declaration (sim.unexpected _ related))

end Bounded

/-! ## Further on -/

/-- A reading of a source, and a reading of the source moved further on. -/
structure Moved (shift : Shift) (base otherBase : List Diagnostic) (s other : ParseState) : Prop where
  pending : other.pending = s.pending.map shift.token
  last : other.last = shift.token s.last
  children : other.children = s.children.map shift.element
  silent : other.silent = s.silent
  reports : ∃ added, s.reports = base ++ added
    ∧ other.reports = otherBase ++ added.map shift.diagnostic

/-- To be moved is to be relocated by the same shift; the two relations spell out the children
differently. -/
theorem moved_iff {shift : Shift} {base otherBase : List Diagnostic} {s other : ParseState} :
    Moved shift base otherBase s other ↔ Relocated shift.span base otherBase s other := by
  constructor
  · rintro ⟨pending, last, children, silent, reports⟩
    rw [shift.element_eq_relocate] at children
    exact ⟨pending, last, children, silent, reports⟩
  · rintro ⟨pending, last, children, silent, reports⟩
    rw [← shift.element_eq_relocate] at children
    exact ⟨pending, last, children, silent, reports⟩

/-- From the keyword on, the declarations of a source that was moved are those of the source,
moved. -/
theorem Moved.declarations {shift : Shift} {base otherBase : List Diagnostic}
    {s other : ParseState} (related : Moved shift base otherBase s other) :
    Moved shift base otherBase (Rule.declarations s) (Rule.declarations other) :=
  moved_iff.mpr ((moved_iff.mp related).declarations shift.carries_span)

/-! ## Across the boundary -/

/-- A state with children before those that were gathered. -/
def ParseState.behind (before : List Element) (s : ParseState) : ParseState :=
  { s with children := before ++ s.children }

/-- To report something unexpected does not touch what was gathered before. -/
theorem ParseState.unexpected_behind (before : List Element) (s : ParseState) (expected : String) :
    (s.behind before).unexpected expected = (s.unexpected expected).behind before := by
  rw [ParseState.unexpected, ParseState.unexpected, ParseState.report, ParseState.report]
  cases awake : s.silent with
  | false => simp [ParseState.behind, ParseState.current, awake]
  | true => simp [ParseState.behind, awake]

/-- A declaration does not depend on those before it. -/
theorem Rule.declarations_behind (before : List Element) (s : ParseState) :
    Rule.declarations (s.behind before) = (Rule.declarations s).behind before := by
  fun_induction Rule.declarations s with
  | case1 s ahead => exact Rule.declarations_end ahead
  | case2 s t rest ahead kind rule found _ ih =>
    have step : (s.behind before).node kind rule = (s.node kind rule).behind before := by
      simp [ParseState.node, ParseState.behind, ParseState.here, ParseState.current]
    rw [Rule.declarations_found (s := s.behind before) ahead found, step, ih]
  | case3 s t rest ahead none_found _ ih =>
    have step : (((s.behind before).unexpected Rule.expectedDeclaration).recover
        Rule.declarationStops)
          = ((s.unexpected Rule.expectedDeclaration).recover Rule.declarationStops).behind before := by
      rw [ParseState.unexpected_behind]
      simp [ParseState.recover, ParseState.append, ParseState.behind, ParseState.here,
        ParseState.current]
    rw [Rule.declarations_skip (s := s.behind before) ahead none_found, step, ih]

/-- A declaration begins by taking its keyword, which ends any silence.

Proof: taking the keyword ends the silence, so from there on the two runs are the same. -/
theorem Rule.declarations_awake {s : ParseState} {t : Token} {rest : List Token}
    (ahead : s.pending = t :: rest) (declaration : t.kind.startsDeclaration = true) :
    Rule.declarations s = Rule.declarations { s with silent := false } := by
  have taken : { s with children := [], silent := false }.take = { s with children := [] }.take := by
    simp [ParseState.take, ParseState.append, ahead]
  cases found : Rule.declaration? t.kind with
  | none => exact Bool.noConfusion (declaration.symm.trans (Rule.declaration?_eq_none found))
  | some pair =>
    obtain ⟨kind, rule⟩ := pair
    have same : rule { s with children := [], silent := false } = rule { s with children := [] } := by
      unfold Rule.declaration? at found
      split at found
      · cases found
        simp only [Rule.importing, taken]
      · cases found
        simp only [Rule.message, Rule.block, taken]
      · cases found
        simp only [Rule.enum, Rule.block, taken]
      · cases found
    rw [Rule.declarations_found ahead found,
      Rule.declarations_found (s := { s with silent := false }) ahead found]
    simp only [ParseState.node, same, ParseState.here, ParseState.current]

/-- The declarations that are read across the boundary: first those of the tokens
before it, then those of a source that was moved there.

Proof: up to the boundary the run is that of the first source. There it begins with a
declaration, so it goes on like a run without what was gathered before, and this is the moved
run of the other source. -/
theorem Bounded.declarations_moved {last next : Token} {more : List Token}
    {base otherBase : List Diagnostic} {s other tail : ParseState} {shift : Shift}
    (declaration : next.kind.startsDeclaration = true)
    (place : next.span.emptyAtStart = last.span.emptyAtStart)
    (related : Bounded last next (shift.token tail.last) more base otherBase s other)
    (ahead : next :: more = tail.pending.map shift.token) (awake : tail.silent = false)
    (fresh : tail.children = []) :
    (Rule.declarations other).children
        = (Rule.declarations s).children ++ (Rule.declarations tail).children.map shift.element
      ∧ ∃ reports added, SameReports last next base otherBase True (Rule.declarations s).reports reports
        ∧ (Rule.declarations tail).reports = tail.reports ++ added
        ∧ (Rule.declarations other).reports = reports ++ added.map shift.diagnostic := by
  obtain ⟨reached, onward, bounded⟩ := related.declarations declaration place
  have otherAhead : reached.pending = next :: more := by
    rw [bounded.pending, Rule.declarations_pending, List.nil_append]
  let begun : ParseState := { reached with children := [], silent := false }
  have begins : { reached with silent := false } = begun.behind reached.children := by
    simp [begun, ParseState.behind]
  rw [Rule.declarations_awake otherAhead declaration, begins, Rule.declarations_behind] at onward
  have moved : Moved shift tail.reports reached.reports tail begun := by
    refine ⟨otherAhead.trans ahead, bounded.otherLast_eq, ?_, awake.symm, [], ?_, ?_⟩
    · rw [fresh]
      rfl
    · rw [List.append_nil]
    · simp [begun]
  obtain ⟨added, told, otherTold⟩ := moved.declarations.reports
  refine ⟨?_, reached.reports, added, bounded.reports.mono fun _ => trivial, told, ?_⟩
  · rw [onward, ← bounded.children, ← moved.declarations.children]
    rfl
  · rw [onward, ← otherTold]
    rfl

end MessageSchema
