import MessageSchema.Proofs.Boundary
import MessageSchema.Proofs.Restart
import MessageSchema.Proofs.Sorting

/-!
# Errors stay local

Whatever stands on the lines before a declaration, however broken, the
declaration is read as it would be by itself. The one thing that can go further
is a block comment that is not closed.

So a source is split before any line that begins with the keyword of a
declaration: its declarations are those of the two parts, and so are its
findings, except that a report that the first part ends too early becomes a
report about the keyword.
-/

namespace MessageSchema

open ParseState

/-! ## Findings on both sides of the boundary -/

/-- A finding of a source, and what becomes of it when a declaration follows at
`boundary`. Only a finding about an unexpected token can change, and only in
what was found there and where that stops. -/
inductive Retold (boundary : Nat) : Diagnostic → Diagnostic → Prop
  | same (d : Diagnostic) : Retold boundary d d
  | unexpected (expected found otherFound : String) {span : Span} (otherStop : Nat)
      (place : span.start = boundary) :
      Retold boundary ⟨.unexpectedToken expected found, span⟩
        ⟨.unexpectedToken expected otherFound, { span with stop := otherStop }⟩

namespace AtBoundary

variable {last next : Token} {d e : Diagnostic}

/-- What is reported at the boundary is told again there, with another token found. The two
spans start at the same place and differ only in where they stop. -/
theorem retold (told : AtBoundary last next d e)
    (place : next.span.emptyAtStart = last.span.emptyAtStart) : Retold last.span.start d e := by
  cases told with
  | missing what => exact .same _
  | unexpected expected =>
    have moved : next.span = { last.span with stop := next.span.stop } := by
      simp only [Span.emptyAtStart, Span.mk.injEq] at place
      obtain ⟨start, -, line, column⟩ := place
      simp only [← start, ← line, ← column]
    rw [moved]
    exact .unexpected expected _ _ _ rfl

/-- Both reports at the boundary start there. -/
theorem start_eq (told : AtBoundary last next d e)
    (place : next.span.emptyAtStart = last.span.emptyAtStart) :
    d.span.start = last.span.start ∧ e.span.start = last.span.start := by
  cases told with
  | missing what => exact ⟨rfl, rfl⟩
  | unexpected expected =>
    have start : next.span.emptyAtStart.start = last.span.emptyAtStart.start :=
      congrArg Span.start place
    exact ⟨rfl, start⟩

end AtBoundary

/-- A finding that is told again stays behind all findings that start earlier.

Proof: the two lists differ only in the last finding, and both findings start at the boundary,
behind all the others. So they compare alike with the others, and the sort does the same to both
lists. -/
theorem Diagnostic.sorted_retold {boundary : Nat} {early : List Diagnostic} {d e : Diagnostic}
    (before : ∀ a ∈ early, a.span.start < boundary) (retold : Retold boundary d e)
    (start : d.span.start = boundary) (otherStart : e.span.start = boundary) :
    List.Forall₂ (Retold boundary) (sorted (early ++ [d])) (sorted (early ++ [e])) := by
  let Kept (a b : Diagnostic) : Prop := (a = b ∧ a.span.start < boundary) ∨ (a = d ∧ b = e)
  have kept : List.Forall₂ Kept (early ++ [d]) (early ++ [e]) := by
    refine List.rel_append ?_ (.cons (.inr ⟨rfl, rfl⟩) .nil)
    exact List.forall₂_same.mpr fun a member => .inl ⟨rfl, before a member⟩
  -- The starts alone decide, unless a finding is compared with itself.
  have order : ∀ {a b a' b' : Diagnostic}, Kept a b → Kept a' b' →
      a.placedBefore a' = b.placedBefore b' := by
    rintro a b a' b' (⟨rfl, first⟩ | ⟨rfl, rfl⟩) (⟨rfl, second⟩ | ⟨rfl, rfl⟩)
    · rfl
    · have earlier : a.span.start < a'.span.start ∧ a.span.start < b'.span.start := by omega
      simp [placedBefore, earlier]
    · rw [Bool.eq_iff_iff]
      simp only [placedBefore, Bool.or_eq_true, Bool.and_eq_true, decide_eq_true_eq, beq_iff_eq]
      omega
    · simp [placedBefore]
  refine (forall₂_sorted order kept).imp ?_
  rintro a b (⟨rfl, -⟩ | ⟨rfl, rfl⟩)
  · exact .same a
  · exact retold

section Split

variable {boundary : Nat} {ds first late more later : List Diagnostic}

/-- Of findings that all start at the boundary or before it, none is kept behind it, and all are
kept up to it. -/
theorem filter_of_start_le (early : ∀ d ∈ ds, d.span.start ≤ boundary) :
    ds.filter (fun d => boundary < d.span.start) = []
      ∧ ds.filter (fun d => d.span.start ≤ boundary) = ds := by
  constructor
  · apply List.filter_eq_nil_iff.mpr
    intro d member
    simpa using early d member
  · exact List.filter_eq_self.mpr fun d member => decide_eq_true (early d member)

/-- Of findings that all start behind the boundary, all are kept behind it, and none up to
it. -/
theorem filter_of_lt_start (behind : ∀ d ∈ ds, boundary < d.span.start) :
    ds.filter (fun d => boundary < d.span.start) = ds
      ∧ ds.filter (fun d => d.span.start ≤ boundary) = [] := by
  constructor
  · exact List.filter_eq_self.mpr fun d member => decide_eq_true (behind d member)
  · apply List.filter_eq_nil_iff.mpr
    intro d member
    simpa using behind d member

/-- The faults of all tokens are found first, then what the grammar reports; in
both, what belongs before the boundary comes first. -/
theorem filter_around (early : ∀ d ∈ first ++ more, d.span.start ≤ boundary)
    (behind : ∀ d ∈ late ++ later, boundary < d.span.start) :
    (first ++ late ++ more ++ later).filter (fun d => boundary < d.span.start) = late ++ later
      ∧ (first ++ late ++ more ++ later).filter (fun d => d.span.start ≤ boundary)
        = first ++ more := by
  obtain ⟨noneFirst, allFirst⟩ := filter_of_start_le fun d member =>
    early d (List.mem_append_left more member)
  obtain ⟨noneMore, allMore⟩ := filter_of_start_le fun d member =>
    early d (List.mem_append_right first member)
  obtain ⟨allLate, noneLate⟩ := filter_of_lt_start fun d member =>
    behind d (List.mem_append_left later member)
  obtain ⟨allLater, noneLater⟩ := filter_of_lt_start fun d member =>
    behind d (List.mem_append_right late member)
  simp only [List.filter_append]
  constructor
  · rw [noneFirst, allLate, noneMore, allLater, List.nil_append, List.append_nil]
  · rw [allFirst, noneLate, allMore, noneLater, List.append_nil, List.append_nil]

end Split

/-- The findings of a reading that goes on, split at the boundary.

Proof: the findings before the boundary are those up to it, and all later ones lie behind it.
Where the boundary itself was reported, that report is the last of the first part, and sorting
keeps it so. -/
theorem SameReports.split {last next : Token}
    {base late reports otherReports later : List Diagnostic} {stopped : Prop}
    (told : SameReports last next base (base ++ late) stopped reports otherReports)
    (place : next.span.emptyAtStart = last.span.emptyAtStart)
    (before : ∀ d ∈ base, d.span.start < last.span.start)
    (behind : ∀ d ∈ late ++ later, last.span.start < d.span.start) :
    (otherReports ++ later).filter (fun d => last.span.start < d.span.start) = late ++ later
      ∧ List.Forall₂ (Retold last.span.start) (Diagnostic.sorted reports)
        (Diagnostic.sorted
          ((otherReports ++ later).filter fun d => d.span.start ≤ last.span.start)) := by
  have allEarly : ∀ {added : List Diagnostic}, (∀ d ∈ added, d.span.start < last.span.start) →
      ∀ d ∈ base ++ added, d.span.start < last.span.start := by
    intro added early d member
    rcases List.mem_append.mp member with first | inside
    · exact before d first
    · exact early d inside
  cases told with
  | same added early =>
    obtain ⟨chosen, kept⟩ :=
      filter_around (fun d member => Nat.le_of_lt (allEarly early d member)) behind
    refine ⟨chosen, ?_⟩
    rw [kept]
    exact List.forall₂_same.mpr fun d _ => .same d
  | @boundary added early d e atBoundary _ =>
    obtain ⟨start, otherStart⟩ := atBoundary.start_eq place
    have all : ∀ d ∈ base ++ (added ++ [e]), d.span.start ≤ last.span.start := by
      intro d member
      rw [← List.append_assoc] at member
      rcases List.mem_append.mp member with inside | atEnd
      · exact Nat.le_of_lt (allEarly early d inside)
      · rw [List.mem_singleton.mp atEnd, otherStart]
    obtain ⟨chosen, kept⟩ := filter_around all behind
    rw [List.append_assoc (base ++ late)]
    refine ⟨chosen, ?_⟩
    rw [kept, ← List.append_assoc]
    exact Diagnostic.sorted_retold (allEarly early) (atBoundary.retold place) start otherStart

/-! ## The two parts -/

/-- Where a declaration is ahead, nothing is reported about its keyword.

Proof: the first thing that is done is to take the keyword, without a report. What follows is a
run, and a run reports at tokens that are ahead of it. -/
theorem Rule.declarations_added {s : ParseState} {t : Token} {rest : List Token}
    (ahead : s.pending = t :: rest) (declaration : t.kind.startsDeclaration = true) :
    ∃ added, (Rule.declarations s).reports = s.reports ++ added
      ∧ ∀ d ∈ added, Run.Reported (rest ++ [s.last]) d := by
  cases found : Rule.declaration? t.kind with
  | none => exact Bool.noConfusion (declaration.symm.trans (Rule.declaration?_eq_none found))
  | some pair =>
    obtain ⟨kind, rule⟩ := pair
    have taken : { s with children := [] }.take
        = { s with pending := rest, children := [.token t], silent := false } := by
      simp [ParseState.take, ParseState.append, ahead]
    have first := Rule.declaration?_run found { s with children := [] }
    have second := Rule.declarations_run (s.node kind rule)
    rw [taken] at first
    obtain ⟨early, earlySame, earlyReported⟩ := first.added
    obtain ⟨late, lateSame, lateReported⟩ := second.added
    rw [Rule.declarations_found ahead found]
    refine ⟨early ++ late, ?_, ?_⟩
    · rw [lateSame, ← List.append_assoc]
      exact congrArg (· ++ late) earlySame
    · intro d member
      rcases List.mem_append.mp member with inEarly | inLate
      · exact earlyReported d inEarly
      · obtain ⟨syntactic, u, inside, place⟩ := lateReported d inLate
        refine ⟨syntactic, u, ?_, place⟩
        rcases List.mem_append.mp inside with pending | last
        · exact List.mem_append_left _ (first.pending_suffix.mem pending)
        · exact List.mem_append_right _ (first.last_eq ▸ last)

/-- The tokens of a source that ends in a newline, as those that follow see them. -/
structure Closes (text : String) (shown : List Token) (last : Token) : Prop where
  tokens : tokenize text = shown ++ [last]
  read : ∀ t ∈ shown, t.IsRead
  kind : last.kind = .eof
  fault : last.fault = none
  place : last.span = (Shift.past text).span .origin
  before : ∀ t ∈ shown, t.span.start < last.span.start

/-- A source that ends with a line closes: its tokens are read from it, the last of them is the
end token behind the line, and all others start before that. -/
theorem Ended.closes {text : String} (ended : Ended text.toList) :
    ∃ shown last, Closes text shown last := by
  obtain ⟨body, whole, allRead⟩ := exists_tokensFrom .origin text.toList
  have starts := tokensFrom_starts .origin text.toList
  rw [Shift.position_past ended] at whole
  rw [whole] at starts
  refine ⟨body.filter fun t => !t.kind.isTrivia, Token.endAt ((Shift.past text).position .origin),
    ?_, ?_, rfl, rfl, rfl, ?_⟩
  · rw [tokenize, tokenizeWithTrivia, whole, List.filter_append]
    rfl
  · exact fun t member => allRead t (List.mem_filter.mp member).1
  · intro t member
    exact (List.pairwise_append.mp starts).2.2 t (List.mem_filter.mp member).1 _
      List.mem_cons_self

/-- The tokens of a source that begins with the keyword of a declaration. -/
structure Opens (tail : String) (keyword : Token) (shown : List Token) (last : Token) : Prop where
  tokens : tokenize tail = keyword :: shown ++ [last]
  declaration : keyword.kind.startsDeclaration = true
  faultless : keyword.fault = none
  place : keyword.span.emptyAtStart = .origin
  read : ∀ t ∈ keyword :: shown, t.IsRead
  kind : last.kind = .eof
  fault : last.fault = none
  behind : ∀ t ∈ shown ++ [last], 0 < t.span.start
  /-- The source does not go on with what is before it. -/
  apart : ∀ c ∈ tail.toList.head?, Text.isBlank c = false

/-- What starts a declaration is a keyword. -/
theorem TokenKind.exists_keyword {kind : TokenKind} (declaration : kind.startsDeclaration = true) :
    ∃ word, kind = .keyword word := by
  cases kind with
  | keyword word => exact ⟨word, rfl⟩
  | _ => exact Bool.noConfusion declaration

/-- A source that begins with the keyword of a declaration opens one. The keyword is without
fault, so the reading of the source begins with it and goes on behind it. -/
theorem exists_opens {tail : String} {keyword : Token} {rest : List Token}
    (begins : tokenizeWithTrivia tail = keyword :: rest)
    (declaration : keyword.kind.startsDeclaration = true) :
    ∃ shown last, Opens tail keyword shown last := by
  obtain ⟨word, isKeyword⟩ := TokenKind.exists_keyword declaration
  have starts := tokensFrom_starts .origin tail.toList
  have whole : tokensFrom .origin tail.toList = keyword :: rest := begins
  cases text : tail.toList with
  | nil =>
    rw [text, tokensFrom] at whole
    obtain ⟨rfl, -⟩ := List.cons.inj whole
    exact Bool.noConfusion declaration
  | cons c chars =>
    rw [text, tokensFrom] at whole
    obtain ⟨rfl, rfl⟩ := List.cons.inj whole
    obtain ⟨faultless, notBlank⟩ := Reading.read_startsDeclaration declaration
    obtain ⟨body, left, allRead⟩ := exists_tokensFrom
      (Position.origin.advanceAll (Reading.read c chars).lexeme) (Reading.read c chars).rest
    rw [← Position.advanceAll_append, Reading.read_lexeme] at left
    rw [left] at begins
    rw [text, tokensFrom, left] at starts
    have shown : (!((Reading.read c chars).tokenAt .origin).kind.isTrivia) = true := by
      rw [isKeyword]
      rfl
    refine ⟨body.filter fun t => !t.kind.isTrivia,
      Token.endAt (Position.origin.advanceAll (c :: chars)), ?_, declaration, faultless, rfl, ?_, rfl,
      rfl, ?_, ?_⟩
    · rw [tokenize, begins, List.filter_cons_of_pos (p := fun t : Token => !t.kind.isTrivia) shown,
        List.filter_append]
      rfl
    · intro t member
      rcases List.mem_cons.mp member with rfl | inside
      · exact ⟨c, chars, .origin, rfl⟩
      · exact allRead t (List.mem_filter.mp inside).1
    · intro t member
      apply (List.pairwise_cons.mp starts).1 t
      rcases List.mem_append.mp member with inside | atEnd
      · exact List.mem_append_left _ (List.mem_filter.mp inside).1
      · exact List.mem_append_right _ atEnd
    · intro d head
      rw [text] at head
      rwa [← Option.some.inj head]

/-! ## The whole -/

section Whole

variable {text tail : String} {shown tailShown : List Token} {last keyword tailLast : Token}

/-- The reading of the first part begins with its own tokens, and with the findings of these. -/
theorem Closes.start_eq (closes : Closes text shown last) :
    ParseState.start (tokenize text)
      = ⟨shown.filter (·.kind.isSignificant), last, [], false, shown.filterMap Token.finding?⟩ := by
  rw [closes.tokens]
  exact start_of_read closes.read closes.kind closes.fault

/-- The reading of the second part begins with the keyword, which has no finding of its own. -/
theorem Opens.start_eq (opens : Opens tail keyword tailShown tailLast) :
    ParseState.start (tokenize tail)
      = ⟨keyword :: tailShown.filter (·.kind.isSignificant), tailLast, [], false,
        tailShown.filterMap Token.finding?⟩ := by
  obtain ⟨word, isKeyword⟩ := TokenKind.exists_keyword opens.declaration
  have significant : keyword.kind.isSignificant = true := by
    rw [isKeyword]
    rfl
  have silent : keyword.finding? = none := by
    rw [Token.finding?, opens.faultless]
    rfl
  rw [opens.tokens, start_of_read opens.read opens.kind opens.fault,
    List.filter_cons_of_pos (p := fun t : Token => t.kind.isSignificant) significant,
    List.filterMap_cons_none silent]

/-- Before the first token of the whole, all tokens and their faults are ahead.

Proof: the tokens of the whole are those of the text without its end, and then those of the
tail, moved. Filtering and finding faults commute with the move. -/
theorem Closes.start_append (closes : Closes text shown last) (ended : Ended text.toList)
    (closed : ∀ t ∈ tokenize text, t.fault ≠ some .unterminatedComment)
    (opens : Opens tail keyword tailShown tailLast) :
    ParseState.start (tokenize (text ++ tail))
      = ⟨shown.filter (·.kind.isSignificant)
          ++ (ParseState.start (tokenize tail)).pending.map (Shift.past text).token,
        (Shift.past text).token tailLast, [], false,
        shown.filterMap Token.finding?
          ++ (ParseState.start (tokenize tail)).reports.map (Shift.past text).diagnostic⟩ := by
  have tokens : tokenize (text ++ tail)
      = (shown ++ (keyword :: tailShown).map (Shift.past text).token)
        ++ [(Shift.past text).token tailLast] := by
    rw [tokenize_append ended closed opens.apart, closes.tokens, opens.tokens, List.dropLast_concat,
      List.map_append, List.append_assoc]
    rfl
  have read : ∀ t ∈ shown ++ (keyword :: tailShown).map (Shift.past text).token, t.IsRead := by
    intro t member
    rcases List.mem_append.mp member with inside | moved
    · exact closes.read t inside
    · obtain ⟨u, inTail, rfl⟩ := List.mem_map.mp moved
      exact (opens.read u inTail).shift _
  have pending : ((keyword :: tailShown).map (Shift.past text).token).filter (·.kind.isSignificant)
      = ((keyword :: tailShown).filter (·.kind.isSignificant)).map (Shift.past text).token := by
    rw [List.filter_map]
    rfl
  have findings : ((keyword :: tailShown).map (Shift.past text).token).filterMap Token.finding?
      = ((keyword :: tailShown).filterMap Token.finding?).map (Shift.past text).diagnostic := by
    rw [List.filterMap_map, List.map_filterMap]
    exact List.filterMap_congr fun t _ => Shift.finding?_token _ t
  have isEnd : ((Shift.past text).token tailLast).kind = .eof := opens.kind
  have sound : ((Shift.past text).token tailLast).fault = none := opens.fault
  rw [tokens, start_of_read read isEnd sound, List.filter_append, List.filterMap_append, pending,
    findings, opens.tokens, start_of_read opens.read opens.kind opens.fault]

/-- The end of the first part and the keyword of the second are at one place. -/
theorem Closes.place_eq (closes : Closes text shown last)
    (opens : Opens tail keyword tailShown tailLast) :
    ((Shift.past text).token keyword).span.emptyAtStart = last.span.emptyAtStart := by
  have moved : ((Shift.past text).token keyword).span.emptyAtStart
      = (Shift.past text).span keyword.span.emptyAtStart := rfl
  rw [moved, opens.place, closes.place]
  rfl

/-- At the start, the reading of the first part and that of the whole source are bounded by the
keyword: the whole has the tokens of the first part, then the keyword, moved to its place. -/
theorem Closes.bounded (closes : Closes text shown last) (ended : Ended text.toList)
    (closed : ∀ t ∈ tokenize text, t.fault ≠ some .unterminatedComment)
    (opens : Opens tail keyword tailShown tailLast) :
    Bounded last ((Shift.past text).token keyword)
      ((Shift.past text).token (ParseState.start (tokenize tail)).last)
      ((tailShown.filter (·.kind.isSignificant)).map (Shift.past text).token)
      (ParseState.start (tokenize text)).reports
      ((ParseState.start (tokenize text)).reports
        ++ (ParseState.start (tokenize tail)).reports.map (Shift.past text).diagnostic)
      (ParseState.start (tokenize text)) (ParseState.start (tokenize (text ++ tail))) := by
  rw [closes.start_append ended closed opens, closes.start_eq, opens.start_eq]
  constructor
  case pending => rfl
  case last_eq => rfl
  case otherLast_eq => rfl
  case children => rfl
  case silent => rfl
  case early => exact fun t member => closes.before t (List.mem_filter.mp member).1
  case reports => exact .refl _ _ _ _ _

/-- The findings of the tokens are at the tokens. -/
theorem Closes.findings_before (closes : Closes text shown last) :
    ∀ d ∈ (ParseState.start (tokenize text)).reports, d.span.start < last.span.start := by
  rw [closes.start_eq]
  intro d member
  obtain ⟨t, inside, carried⟩ := List.mem_filterMap.mp member
  obtain ⟨problem, -, rfl⟩ := Option.map_eq_some_iff.mp carried
  exact closes.before t inside

/-- Nothing is found at the beginning of a source that begins with a declaration.

Proof: a finding is told of a token that was read, or reported behind the keyword. In both cases
it is at a token that starts behind the beginning. -/
theorem Opens.findings_behind (opens : Opens tail keyword tailShown tailLast) :
    ∀ d ∈ (parseSource tail).findings, 0 < d.span.start := by
  have start := opens.start_eq
  have ahead : (ParseState.start (tokenize tail)).pending
      = keyword :: tailShown.filter (·.kind.isSignificant) := by rw [start]
  obtain ⟨added, told, reported⟩ := Rule.declarations_added ahead opens.declaration
  rw [start] at reported told
  intro d member
  rw [parseSource, parse, start, told] at member
  rcases List.mem_append.mp member with found | new
  · obtain ⟨t, inside, carried⟩ := List.mem_filterMap.mp found
    obtain ⟨problem, -, rfl⟩ := Option.map_eq_some_iff.mp carried
    exact opens.behind t (List.mem_append_left _ inside)
  · obtain ⟨-, t, inside, place⟩ := reported d new
    have behind : 0 < t.span.start := by
      apply opens.behind t
      rcases List.mem_append.mp inside with pending | atEnd
      · exact List.mem_append_left _ (List.mem_filter.mp pending).1
      · exact List.mem_append_right _ atEnd
    rcases place with same | atStart
    · rw [same]
      exact behind
    · rw [atStart]
      exact behind

/-- The whole is read across the boundary. -/
theorem Closes.declarations_append (closes : Closes text shown last) (ended : Ended text.toList)
    (closed : ∀ t ∈ tokenize text, t.fault ≠ some .unterminatedComment)
    (opens : Opens tail keyword tailShown tailLast) :
    (Rule.declarations (.start (tokenize (text ++ tail)))).children
        = (Rule.declarations (.start (tokenize text))).children
          ++ (Rule.declarations (.start (tokenize tail))).children.map (Shift.past text).element
      ∧ ∃ reports added,
        SameReports last ((Shift.past text).token keyword)
          (ParseState.start (tokenize text)).reports
          ((ParseState.start (tokenize text)).reports
            ++ (ParseState.start (tokenize tail)).reports.map (Shift.past text).diagnostic)
          True (parseSource text).findings reports
        ∧ (parseSource tail).findings = (ParseState.start (tokenize tail)).reports ++ added
        ∧ (parseSource (text ++ tail)).findings
          = reports ++ added.map (Shift.past text).diagnostic := by
  have declares : ((Shift.past text).token keyword).kind.startsDeclaration = true :=
    opens.declaration
  apply (closes.bounded ended closed opens).declarations_moved declares (closes.place_eq opens)
  · rw [opens.start_eq]
    rfl
  · rw [opens.start_eq]
  · rw [opens.start_eq]

/-- The findings of the whole, split at the boundary. -/
theorem Closes.findings_append (closes : Closes text shown last) (ended : Ended text.toList)
    (closed : ∀ t ∈ tokenize text, t.fault ≠ some .unterminatedComment)
    (opens : Opens tail keyword tailShown tailLast) :
    (parseSource (text ++ tail)).findings.filter (fun d => text.utf8ByteSize < d.span.start)
        = (parseSource tail).findings.map (Shift.past text).diagnostic
      ∧ List.Forall₂ (Retold text.utf8ByteSize) (Diagnostic.sorted (parseSource text).findings)
        (Diagnostic.sorted ((parseSource (text ++ tail)).findings.filter fun d =>
          d.span.start ≤ text.utf8ByteSize)) := by
  have boundary : last.span.start = text.utf8ByteSize := by
    rw [closes.place]
    exact Nat.zero_add _
  have behind : ∀ d ∈ (parseSource tail).findings.map (Shift.past text).diagnostic,
      last.span.start < d.span.start := by
    intro d member
    obtain ⟨e, found, rfl⟩ := List.mem_map.mp member
    rw [boundary]
    exact Nat.lt_add_of_pos_left (opens.findings_behind e found)
  obtain ⟨-, reports, added, told, tailFindings, wholeFindings⟩ :=
    closes.declarations_append ended closed opens
  rw [tailFindings, List.map_append] at behind ⊢
  rw [wholeFindings, ← boundary]
  exact told.split (closes.place_eq opens) closes.findings_before behind

end Whole

/-- The declarations of a source are those of the nodes that the loop over declarations has
gathered. -/
theorem declarations_parseSource (source name : String) :
    ((parseSource source).tree.toDocument name).declarations
      = ((Rule.declarations (.start (tokenize source))).children.filterMap Element.node?).filterMap
        Node.toDeclaration? := by
  rw [Node.toDocument, parseSource, parse, nodes_documentNode]

/-- The declarations of moved children are the declarations, moved. -/
theorem Shift.declarations_elements (shift : Shift) (children : List Element) :
    ((children.map shift.element).filterMap Element.node?).filterMap Node.toDeclaration?
      = ((children.filterMap Element.node?).filterMap Node.toDeclaration?).map
        shift.declaration := by
  have nodes : (children.map shift.element).filterMap Element.node?
      = (children.filterMap Element.node?).map shift.node := by
    rw [List.filterMap_map, List.map_filterMap]
    exact List.filterMap_congr fun e _ => shift.node?_element e
  rw [nodes, List.filterMap_map, List.map_filterMap]
  exact List.filterMap_congr fun n _ => shift.toDeclaration?_node n

/-- Whatever stands on the lines before a declaration, what is read from there on
is read as by itself, and what is read before is read as if the source ended there.

Proof: the first part closes at an end token, the second opens with its keyword, and where they
meet the two readings are bounded by each other. From there the gathered children are those of
both parts, the later ones moved, and the findings split at the boundary. Sorting respects the
split, since it goes by places. -/
theorem recovery_local (text tail name : String)
    (closed : ∀ t ∈ tokenize (text ++ "\n"), t.fault ≠ some .unterminatedComment)
    (begins : ((tokenizeWithTrivia tail).head?.any (·.kind.startsDeclaration)) = true) :
    let before := text ++ "\n"
    let shift := Shift.past before
    let whole := parseSource (before ++ tail)
    (whole.tree.toDocument name).declarations
        = ((parseSource before).tree.toDocument name).declarations
          ++ ((parseSource tail).tree.toDocument name).declarations.map shift.declaration
      ∧ whole.diagnostics.filter (fun d => before.utf8ByteSize < d.span.start)
        = (parseSource tail).diagnostics.map shift.diagnostic
      ∧ List.Forall₂ (Retold before.utf8ByteSize) (parseSource before).diagnostics
        (whole.diagnostics.filter fun d => d.span.start ≤ before.utf8ByteSize) := by
  intro before shift whole
  obtain ⟨keyword, first, declaration⟩ := (Option.any_eq_true _ _).mp begins
  obtain ⟨rest, tokens⟩ := List.head?_eq_some_iff.mp first
  have ended : Ended before.toList := by simp [Ended, before]
  obtain ⟨shown, last, closes⟩ := ended.closes
  obtain ⟨tailShown, tailLast, opens⟩ := exists_opens tokens declaration
  obtain ⟨children, -⟩ := closes.declarations_append ended closed opens
  obtain ⟨chosen, kept⟩ := closes.findings_append ended closed opens
  refine ⟨?_, ?_, ?_⟩
  · rw [declarations_parseSource, declarations_parseSource, declarations_parseSource, children,
      List.filterMap_append, List.filterMap_append, Shift.declarations_elements]
  · rw [Parsed.diagnostics, Diagnostic.filter_sorted, chosen,
      Diagnostic.sorted_map shift.placedBefore_diagnostic]
    rfl
  · rw [Parsed.diagnostics, Parsed.diagnostics, Diagnostic.filter_sorted]
    exact kept

/-- A message that breaks off in its first field. -/
def brokenMessage : String := "message M \x7b field"

/-- An enum whose body is not closed. -/
def followingEnum : String := "enum E \x7b A = 1;"

/-- A message that breaks off in its first line leaves the enum on the next line as it is, moved
behind the eighteen bytes before it. -/
theorem brokenMessage_local :
    ((parseSource (brokenMessage ++ "\n" ++ followingEnum)).tree.toDocument "schema").declarations
        = ((parseSource (brokenMessage ++ "\n")).tree.toDocument "schema").declarations
          ++ ((parseSource followingEnum).tree.toDocument "schema").declarations.map
            (Shift.declaration ⟨18, 1⟩)
      ∧ (parseSource (brokenMessage ++ "\n" ++ followingEnum)).diagnostics.filter
          (fun d => 18 < d.span.start)
        = (parseSource followingEnum).diagnostics.map (Shift.diagnostic ⟨18, 1⟩)
      ∧ List.Forall₂ (Retold 18) (parseSource (brokenMessage ++ "\n")).diagnostics
        ((parseSource (brokenMessage ++ "\n" ++ followingEnum)).diagnostics.filter
          fun d => d.span.start ≤ 18) := by
  have place : Shift.past (brokenMessage ++ "\n") = ⟨18, 1⟩ := by decide +kernel
  have size : (brokenMessage ++ "\n").utf8ByteSize = 18 := congrArg Shift.bytes place
  have split := recovery_local brokenMessage followingEnum "schema" (by decide +kernel)
    (by decide +kernel)
  simp only [place, size] at split
  exact split

end MessageSchema
