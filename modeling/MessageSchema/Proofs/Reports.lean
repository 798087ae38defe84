import MessageSchema.Proofs.Keywords
import MessageSchema.Proofs.Restart
import MessageSchema.Proofs.Sorting

/-!
# One report for each bad stretch

After a report the grammar is silent until something is read in its order again: until
it takes a token into a node, or has skipped to the end of a statement. Such a token
settles what was reported before it. So no two reports stand at one token, and between
any two of them there is a token that settles the first one.

The invariant follows the silence. As long as it lasts nothing is known of the last
report but that it stands at the token ahead or before; when it is over, a settled
token lies between that report and the token ahead. A node under construction has its
children apart from those gathered outside it, so what counts as settled is passed
into it and handed on with the finished node.
-/

namespace MessageSchema

/-! ## Tokens that end a silence -/

/-- A token right below a node that was taken in its order, or that ends a statement
that was skipped. -/
def Node.Settles (n : Node) (t : Token) : Prop :=
  t ∈ n.tokens ∧ (n.kind ≠ .error ∨ t.kind = .punct .semicolon)

/-- The tokens that are settled once the children are gathered, given those that were
settled outside the node under construction. -/
def Element.Settled (outside : Token → Prop) (children : List Element) (t : Token) : Prop :=
  outside t ∨ .token t ∈ children ∨ ∃ n ∈ Element.preorderOf children, n.Settles t

/-- A settled token between a report and an offset. -/
def Diagnostic.PassedBefore (settled : Token → Prop) (d : Diagnostic) (offset : Nat) : Prop :=
  ∃ t, settled t ∧ d.span.start ≤ t.span.start ∧ t.span.start < offset

/-- A finding that was passed by a settled token stays passed, when more is settled and the
reading has gone further. -/
theorem Diagnostic.PassedBefore.mono {settled more : Token → Prop} {d : Diagnostic}
    {offset further : Nat} (passed : d.PassedBefore settled offset)
    (kept : ∀ t, settled t → more t) (le : offset ≤ further) : d.PassedBefore more further := by
  obtain ⟨t, done, behind, before⟩ := passed
  exact ⟨t, kept t done, behind, Nat.lt_of_lt_of_le before le⟩

namespace Element

variable {outside : Token → Prop} {children more : List Element} {t : Token}

/-- What is settled stays settled when more children are gathered. -/
theorem Settled.append (settled : Settled outside children t) :
    Settled outside (children ++ more) t := by
  rcases settled with out | here | ⟨n, below, done⟩
  · exact .inl out
  · exact .inr (.inl (List.mem_append_left _ here))
  · refine .inr (.inr ⟨n, ?_, done⟩)
    rw [preorderOf_append]
    exact List.mem_append_left _ below

/-- A semicolon that is skipped is settled. -/
theorem settled_of_skipped {skipped : List Token} {fallback : Span} (member : t ∈ skipped)
    (semicolon : t.kind = .punct .semicolon) :
    Settled outside (children ++ [.node (Node.covering .error (skipped.map .token) fallback)]) t := by
  refine .inr (.inr ⟨Node.covering .error (skipped.map .token) fallback, ?_, ?_, .inr semicolon⟩)
  · rw [preorderOf_concat, preorder_covering]
    exact List.mem_append_right _ List.mem_cons_self
  · exact List.mem_filterMap.mpr ⟨.token t, List.mem_map_of_mem member, rfl⟩

/-- What is settled below a node that was not skipped stays settled when it is built. -/
theorem Settled.build {kind : NodeKind} {inner : List Element} {fallback : Span}
    (settled : Settled (Settled outside children) inner t) (taken : kind ≠ .error) :
    Settled outside (children ++ [.node (Node.covering kind inner fallback)]) t := by
  have inside : ∀ n ∈ Node.covering kind inner fallback :: preorderOf inner,
      n ∈ preorderOf (children ++ [.node (Node.covering kind inner fallback)]) := by
    intro n member
    rw [preorderOf_concat, preorder_covering]
    exact List.mem_append_right _ member
  rcases settled with before | here | ⟨n, below, done⟩
  · exact before.append
  · refine .inr (.inr ⟨_, inside _ List.mem_cons_self, ?_, .inl taken⟩)
    exact List.mem_filterMap.mpr ⟨_, here, rfl⟩
  · exact .inr (.inr ⟨n, inside n (List.mem_cons_of_mem _ below), done⟩)

end Element

namespace ParseState

/-- The grammar's own reports. -/
def ownReports (s : ParseState) : List Diagnostic :=
  s.reports.filter (·.problem.isSyntactic)

/-- Where a state stands with its reports: a settled token lies between any two of them,
and, unless the reader is silent, between each of them and the token ahead. -/
structure Spaced (settled : Token → Prop) (s : ParseState) : Prop where
  ahead : (s.pending ++ [s.last]).Pairwise fun t u => t.span.start < u.span.start
  apart : s.ownReports.Pairwise fun a b => a.PassedBefore settled b.span.start
  reached : ∀ d ∈ s.ownReports, d.span.start ≤ s.current.span.start
  awake : s.silent = false → ∀ d ∈ s.ownReports, d.PassedBefore settled s.current.span.start

variable {settled more : Token → Prop} {s after : ParseState}

/-- Behind tokens that were passed, the token ahead starts later than each of them, and
later than the one that was ahead if there are any.

Proof: the tokens ahead and the end token are in order. The ones that were passed and the one
that is then ahead are a beginning of this list. -/
theorem starts_after {taken : List Token}
    (ordered : (s.pending ++ [s.last]).Pairwise fun t u => t.span.start < u.span.start)
    (split : s.pending = taken ++ after.pending) (last : after.last = s.last) :
    s.current.span.start ≤ after.current.span.start
      ∧ ∀ t ∈ taken, s.current.span.start ≤ t.span.start
        ∧ t.span.start < after.current.span.start := by
  obtain ⟨others, ahead⟩ := after.exists_ahead
  have whole : s.pending ++ [s.last] = taken ++ after.current :: others := by
    rw [split, ← last, List.append_assoc, ahead]
  rw [whole] at ordered
  obtain ⟨among, -, before⟩ := List.pairwise_append.mp ordered
  have behind : ∀ t ∈ taken, t.span.start < after.current.span.start :=
    fun t member => before t member _ List.mem_cons_self
  obtain ⟨first, here⟩ := s.exists_ahead
  rw [whole] at here
  cases taken with
  | nil =>
    obtain ⟨same, -⟩ := List.cons.inj here
    exact ⟨Nat.le_of_eq (same ▸ rfl), List.forall_mem_nil _⟩
  | cons t rest =>
    obtain ⟨same, -⟩ := List.cons.inj here
    rw [← same]
    refine ⟨Nat.le_of_lt (behind t List.mem_cons_self), fun u member => ⟨?_, behind u member⟩⟩
    rcases List.mem_cons.mp member with rfl | later
    · exact Nat.le_refl _
    · exact Nat.le_of_lt ((List.pairwise_cons.mp among).1 u later)

/-- A step without report keeps the reports spaced, if the reader is awake behind it only
when it was awake before or has just passed a settled token. -/
theorem Spaced.pass (spaced : s.Spaced settled) {taken : List Token}
    (split : s.pending = taken ++ after.pending) (last : after.last = s.last)
    (reports : after.reports = s.reports) (kept : ∀ t, settled t → more t)
    (woken : after.silent = false → s.silent = false ∨ ∃ t ∈ taken, more t) :
    after.Spaced more := by
  obtain ⟨further, passed⟩ := starts_after spaced.ahead split last
  have own : after.ownReports = s.ownReports := by rw [ownReports, ownReports, reports]
  refine ⟨?_, ?_, ?_, ?_⟩
  · have ordered := spaced.ahead
    rw [split, List.append_assoc, ← last] at ordered
    exact (List.pairwise_append.mp ordered).2.1
  · rw [own]
    exact spaced.apart.imp fun passed => passed.mono kept (Nat.le_refl _)
  · rw [own]
    exact fun d member => Nat.le_trans (spaced.reached d member) further
  · rw [own]
    intro awake d member
    rcases woken awake with before | ⟨t, among, done⟩
    · exact (spaced.awake before d member).mono kept further
    · obtain ⟨begins, ends⟩ := passed t among
      exact ⟨t, done, Nat.le_trans (spaced.reached d member) begins, ends⟩

/-- A report is made only by a reader that is awake, at the token ahead. -/
theorem Spaced.report (spaced : s.Spaced settled) {problem : Problem} {span : Span}
    (own : problem.isSyntactic = true) (here : span.start = s.current.span.start) :
    (s.report problem span).Spaced settled := by
  unfold ParseState.report
  split
  · exact spaced
  · next speaking =>
    have awake := spaced.awake (Bool.eq_false_iff.mpr speaking)
    have added : ({ s with silent := true, reports := s.reports ++ [⟨problem, span⟩] } :
        ParseState).ownReports = s.ownReports ++ [⟨problem, span⟩] := by
      simp [ownReports, List.filter_append, own]
    refine ⟨spaced.ahead, ?_, ?_, nofun⟩
    · rw [added, List.pairwise_append]
      refine ⟨spaced.apart, List.pairwise_singleton _ _, ?_⟩
      intro d member e new
      rw [List.mem_singleton.mp new]
      exact here ▸ awake d member
    · rw [added, List.forall_mem_append]
      exact ⟨spaced.reached, List.forall_mem_singleton.mpr (Nat.le_of_eq here)⟩

end ParseState

/-- Every run keeps its reports spaced.

Proof: by induction on the run. A token that is taken settles what was reported, skipping does
so with its semicolon or keeps the silence, and a report is made only where the last one is
settled. -/
theorem Run.spaced {s after : ParseState} (run : Run s after) {outside : Token → Prop}
    (before : s.Spaced (Element.Settled outside s.children)) :
    after.Spaced (Element.Settled outside after.children) := by
  induction run generalizing outside with
  | done s => exact before
  | take s =>
    cases ahead : s.pending with
    | nil =>
      rw [ParseState.take, ahead]
      exact before
    | cons t rest =>
      have taken : s.take = { s.append [.token t] with pending := rest, silent := false } := by
        simp [ParseState.take, ahead]
      rw [taken]
      have split : s.pending = [t] ++ rest := ahead
      refine before.pass split rfl rfl (fun u => Element.Settled.append) ?_
      exact fun _ => .inr ⟨t, List.mem_singleton_self t, .inr (.inl (by simp [ParseState.append]))⟩
  | unexpected s expected =>
    rw [ParseState.unexpected, ParseState.report_children]
    exact before.report rfl rfl
  | missing s what =>
    rw [ParseState.missing, ParseState.report_children]
    exact before.report rfl rfl
  | recover stops s =>
    have split := (ParseState.skipTo_append stops s.pending).symm
    refine before.pass split rfl rfl (fun u => Element.Settled.append) ?_
    intro awake
    cases silent : s.silent with
    | false => exact .inl rfl
    | true =>
      -- the silence ended with a semicolon that was skipped
      have stopped : (skipTo stops s.pending).1.any (·.kind = .punct .semicolon) = true := by
        have still : (s.silent
            && !(skipTo stops s.pending).1.any (·.kind = .punct .semicolon)) = false := awake
        simpa [silent] using still
      obtain ⟨t, among, semicolon⟩ := List.any_eq_true.mp stopped
      exact .inr ⟨t, among, Element.settled_of_skipped among (of_decide_eq_true semicolon)⟩
  | mark s =>
    have split : s.pending = [] ++ s.pending := rfl
    exact before.pass split rfl rfl (fun u => Element.Settled.append) .inl
  | @node kind rule s builds below ih =>
    -- Below the node nothing is gathered yet, and all that is settled is outside.
    have opened : { s with children := [] }.Spaced
        (Element.Settled (Element.Settled outside s.children) []) := by
      have split : s.pending = [] ++ { s with children := [] }.pending := rfl
      exact before.pass split rfl rfl (fun t => .inl) .inl
    have split : (rule { s with children := [] }).pending = [] ++ (s.node kind rule).pending := rfl
    exact (ih opened).pass split rfl rfl (fun t settled => settled.build builds.kind_ne_error) .inl
  | trans _ _ first second => exact second (first before)

/-! ## The reports of a source -/

/-- The tokens through the end are tokens of the list, in its order. -/
theorem throughEnd_sublist (tokens : List Token) : (throughEnd tokens).Sublist tokens := by
  induction tokens with
  | nil => exact List.Sublist.slnil
  | cons t rest ih =>
    rw [throughEnd]
    split
    · exact (List.nil_sublist rest).cons_cons t
    · exact ih.cons_cons t

/-- The tokens that the tree of a source keeps stand one behind the other. -/
theorem keptTokens_starts (source : String) :
    (keptTokens (tokenize source)).Pairwise fun t u => t.span.start < u.span.start := by
  obtain ⟨shown, last, tokens, isEnd, -⟩ := exists_tokenize_read source
  have ended : (tokenize source).any (·.kind = .eof) = true := by
    rw [tokens]
    simp [isEnd]
  rw [keptTokens, if_pos ended]
  have fewer := (List.filter_sublist (p := fun t : Token => !t.kind.isTrivia && t.kind != .error)
    (l := throughEnd (tokenize source))).trans (throughEnd_sublist _)
  exact (tokensFrom_starts .origin source.toList).sublist (fewer.trans List.filter_sublist)

/-- A fault of a token is not a report of the grammar. -/
theorem Problem.isSyntactic_of_isLexical {problem : Problem} (lexical : problem.isLexical = true) :
    problem.isSyntactic = false := by
  cases problem <;> first | rfl | exact nomatch lexical

/-- Before anything is read, nothing is reported but faults of tokens. -/
theorem ParseState.spaced_start (source : String) (outside : Token → Prop) :
    (ParseState.start (tokenize source)).Spaced (Element.Settled outside []) := by
  have none_own : (ParseState.start (tokenize source)).ownReports = [] := by
    apply List.filter_eq_nil_iff.mpr
    intro d member
    rw [Problem.isSyntactic_of_isLexical (tokenFindings_lexical source d member)]
    exact Bool.false_ne_true
  refine ⟨?_, ?_, ?_, ?_⟩
  · have starts := keptTokens_starts source
    rwa [keptTokens_eq] at starts
  · rw [none_own]
    exact List.Pairwise.nil
  · rw [none_own]
    exact List.forall_mem_nil _
  · rw [none_own]
    exact fun _ => List.forall_mem_nil _

/-- The grammar's own reports about a source, in the order in which they were made: a
settled token of the tree lies between any two of them. -/
theorem parseSource_spaced (source : String) :
    ((parseSource source).findings.filter (·.problem.isSyntactic)).Pairwise fun a b =>
      a.PassedBefore (fun t => ∃ n ∈ (parseSource source).tree.preorder, n.Settles t)
        b.span.start := by
  have run := Rule.declarations_run (.start (tokenize source))
  have spaced := run.spaced (ParseState.spaced_start source fun _ => False)
  refine spaced.apart.imp fun passed => passed.mono ?_ (Nat.le_refl _)
  intro t settled
  have tree : (parseSource source).tree
      = documentNode (Rule.declarations (.start (tokenize source))).children
        (Rule.declarations (.start (tokenize source))).last := rfl
  rw [tree]
  rcases settled with out | here | ⟨n, below, done⟩
  · exact out.elim
  · refine ⟨_, Node.self_mem_preorder _, ?_, .inl nofun⟩
    exact List.mem_filterMap.mpr ⟨_, List.mem_append_left _ here, rfl⟩
  · refine ⟨n, ?_, done⟩
    rw [documentNode, Node.preorder, Element.preorderOf_append]
    exact List.mem_cons_of_mem _ (List.mem_append_left _ below)

/-- What stands below the nodes of a tree are tokens that it keeps. -/
theorem mem_keptTokens {tokens : List Token} {n : Node} {t : Token}
    (below : n ∈ (parse tokens).tree.preorder) (member : t ∈ n.tokens) : t ∈ keptTokens tokens := by
  have run := Rule.declarations_run (.start tokens)
  have gathered := run.leaves_append_pending
  rw [Rule.declarations_pending, List.append_nil] at gathered
  have leaf := Node.leaves_of_mem_preorder (Node.tokens_subset_leaves member) _ below
  rw [parse, documentNode, Node.leaves, Element.leavesOf_append, gathered, run.last_eq] at leaf
  rw [keptTokens_eq]
  exact leaf

/-- A finding that starts where the token of a number starts. -/
def Diagnostic.StartsAt (d : Diagnostic) (tokens : List Token) (number : Nat) : Prop :=
  ∃ t, tokens[number]? = some t ∧ d.span.start = t.span.start

/-- Where members are in strict order, their order is that of their numbers. -/
theorem getElem_lt_iff {α : Type} {l : List α} {f : α → Nat}
    (ordered : l.Pairwise fun a b => f a < f b) {i j : Nat} (inside : i < l.length)
    (within : j < l.length) : f l[i] < f l[j] ↔ i < j := by
  have each := List.pairwise_iff_getElem.mp ordered
  constructor
  · intro before
    rcases Nat.lt_trichotomy i j with less | rfl | more
    · exact less
    · exact absurd before (Nat.lt_irrefl _)
    · exact absurd (each j i within inside more) (Nat.lt_asymm before)
  · exact each i j inside within

/-- The grammar's own reports are made in the order of their places. -/
theorem parseSource_reports (source : String) :
    (parseSource source).diagnostics.filter (·.problem.isSyntactic)
      = (parseSource source).findings.filter (·.problem.isSyntactic) := by
  rw [Parsed.diagnostics, Diagnostic.filter_sorted]
  apply Diagnostic.sorted_eq_self
  refine (parseSource_spaced source).imp ?_
  rintro a b ⟨t, -, behind, before⟩
  have less : a.span.start < b.span.start := by omega
  simp [Diagnostic.placedBefore, less]

/-- Each of them starts with a token of the source. -/
theorem parseSource_reported (source : String) {d : Diagnostic}
    (member : d ∈ (parseSource source).findings) (own : d.problem.isSyntactic = true) :
    ∃ t ∈ keptTokens (tokenize source), d.span.start = t.span.start := by
  obtain ⟨added, told, reported⟩ := (Rule.declarations_run (.start (tokenize source))).added
  have findings : (parseSource source).findings = tokenFindings (tokenize source) ++ added := told
  rw [findings, List.mem_append] at member
  rcases member with fault | new
  · have lexical := tokenFindings_lexical source d fault
    exact Bool.noConfusion (own.symm.trans (Problem.isSyntactic_of_isLexical lexical))
  · obtain ⟨t, ahead, place⟩ := (reported d new).placed
    refine ⟨t, ?_, place.elim (congrArg Span.start) (congrArg Span.start)⟩
    rw [keptTokens_eq]
    exact ahead

/-- The grammar reports every bad stretch of a source once. Its reports start at different
tokens of the source, and between two of them, the first at the token `p` and the second at
the token `q`, a token was taken in its order, or a statement that was skipped came to its
end: one of the tokens from `p` to before `q` stands right below a node that was not skipped,
or is a semicolon below one that was.

Proof: between two reports in a row lies a settled token, by the invariant of silence, so their
starts ascend strictly. The tokens that are kept ascend too, which turns the comparison of
places into one of their numbers. -/
theorem stretch_reported_once (source : String) :
    let tokens := keptTokens (tokenize source)
    let tree := (parseSource source).tree
    let reports := (parseSource source).diagnostics.filter (·.problem.isSyntactic)
    (tokens.Pairwise fun t u => t.span.start < u.span.start)
      ∧ (reports.Pairwise fun a b => a.span.start < b.span.start)
      ∧ (∀ d ∈ reports, ∃ number, d.StartsAt tokens number)
      ∧ ∀ a ∈ reports, ∀ b ∈ reports, ∀ p q, a.StartsAt tokens p → b.StartsAt tokens q → p < q →
        ∃ k t, p ≤ k ∧ k < q ∧ tokens[k]? = some t ∧ ∃ n ∈ tree.preorder, n.Settles t := by
  intro tokens tree reports
  have starts : tokens.Pairwise fun t u => t.span.start < u.span.start := keptTokens_starts source
  have spaced : reports.Pairwise fun a b =>
      a.PassedBefore (fun t => ∃ n ∈ tree.preorder, n.Settles t) b.span.start :=
    (congrArg (List.Pairwise _) (parseSource_reports source)).mpr (parseSource_spaced source)
  have ordered : reports.Pairwise fun a b => a.span.start < b.span.start := by
    refine spaced.imp ?_
    rintro a b ⟨t, -, behind, before⟩
    omega
  refine ⟨starts, ordered, ?_, ?_⟩
  · intro d member
    obtain ⟨finding, own⟩ := List.mem_filter.mp member
    obtain ⟨t, kept, place⟩ :=
      parseSource_reported source ((Diagnostic.sorted_perm _).mem_iff.mp finding) own
    obtain ⟨number, there⟩ := List.getElem?_of_mem kept
    exact ⟨number, t, there, place⟩
  · rintro a first b second p q ⟨t, here, place⟩ ⟨u, there, otherPlace⟩ less
    obtain ⟨early, rfl⟩ := List.getElem?_eq_some_iff.mp here
    obtain ⟨late, rfl⟩ := List.getElem?_eq_some_iff.mp there
    have before : a.span.start < b.span.start := by
      rw [place, otherPlace]
      exact (getElem_lt_iff starts early late).mpr less
    -- so the one was reported before the other
    obtain ⟨i, inside, rfl⟩ := List.getElem_of_mem first
    obtain ⟨j, within, rfl⟩ := List.getElem_of_mem second
    obtain ⟨t, ⟨n, below, done⟩, behind, ahead⟩ := List.pairwise_iff_getElem.mp spaced i j inside
      within ((getElem_lt_iff ordered inside within).mp before)
    obtain ⟨k, among, rfl⟩ := List.getElem_of_mem (mem_keptTokens below done.1)
    refine ⟨k, tokens[k], ?_, ?_, List.getElem?_eq_getElem among, n, below, done⟩
    · apply Nat.le_of_not_lt
      intro tooEarly
      have before : tokens[k].span.start < tokens[p].span.start :=
        (getElem_lt_iff starts among early).mpr tooEarly
      exact absurd before (Nat.not_lt.mpr (place ▸ behind))
    · exact (getElem_lt_iff starts among late).mp (otherPlace ▸ ahead)

end MessageSchema
