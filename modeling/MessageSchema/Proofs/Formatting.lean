import Mathlib.Data.List.Forall2
import MessageSchema.Proofs.Erasure
import MessageSchema.Proofs.Findings

/-!
# Layout does not matter

Two sources may differ in blanks, comments and stray characters and still have the
same tokens that count, each at its own place. Without places the two token lists
are one list. The reading of either is simulated by the reading of that list, so
without places their trees are one tree; and no stage behind the grammar decides
anything by places. What can differ is only what was found in the tokens themselves.
-/

namespace MessageSchema

/-! ## What two sources share -/

/-- The tokens of a source that count: all but blanks, comments and stray characters. -/
def significantTokens (source : String) : List Token :=
  (tokenizeWithTrivia source).filter (·.kind.isSignificant)

/-- Tokens that differ at most in their places. -/
def Token.SameText (t u : Token) : Prop :=
  t.kind = u.kind ∧ t.lexeme = u.lexeme ∧ t.fault = u.fault

/-- Whether two tokens have the same text can be decided part by part. -/
instance (t u : Token) : Decidable (t.SameText u) :=
  inferInstanceAs (Decidable (_ ∧ _ ∧ _))

/-- The problems of the findings whose code is none of the lexer's. -/
def nonlexicalProblems (ds : List Diagnostic) : List Problem :=
  (ds.filter fun d => !d.code.startsWith "lexer::").map (·.problem)

/-- Tokens of the same text are equal when their places are erased. -/
theorem Token.SameText.relocate_eq {t u : Token} (same : t.SameText u) :
    t.relocate Span.erase = u.relocate Span.erase := by
  obtain ⟨kind, lexeme, fault⟩ := same
  rw [Token.relocate, Token.relocate, kind, lexeme, fault]
  rfl

/-- Lists of tokens with the same texts are equal when their places are erased. -/
theorem map_relocate_of_sameText {first second : List Token}
    (same : List.Forall₂ Token.SameText first second) :
    first.map (Token.relocate Span.erase) = second.map (Token.relocate Span.erase) := by
  induction same with
  | nil => rfl
  | cons head tail ih => rw [List.map_cons, List.map_cons, head.relocate_eq, ih]

/-- The tokens that count are those that the grammar is given. -/
theorem significantTokens_eq (source : String) :
    significantTokens source = significant (tokenize source) ++ [endToken (tokenize source)] := by
  obtain ⟨body, last, whole, tokens, isEnd, -, allRead⟩ := exists_tokenize source
  have shown : ∀ t ∈ body.filter (fun t => !t.kind.isTrivia), t.IsRead := fun t member =>
    allRead t (List.mem_filter.mp member).1
  have atEnd : endToken (tokenize source) = last := by
    rw [tokens, endToken, find?_end_of_read shown isEnd]
  have visible : [last].filter (·.kind.isSignificant) = [last] := by
    simp [isEnd, TokenKind.isSignificant, TokenKind.isTrivia]
  have once : ∀ kind : TokenKind, (kind.isSignificant && !kind.isTrivia) = kind.isSignificant := by
    intro kind
    rw [TokenKind.isSignificant]
    cases kind.isTrivia <;> simp
  rw [atEnd, significantTokens, whole, List.filter_append, visible, significant, tokens,
    beforeEnd_of_read shown isEnd, List.filter_filter]
  simp only [once]

/-! ## Reading without places -/

/-- The state before tokens without their places, with nothing reported. -/
def ParseState.bare (tokens : List Token) : ParseState :=
  ⟨(significant tokens).map (Token.relocate Span.erase),
    (endToken tokens).relocate Span.erase, [], false, []⟩

/-- Two token lists that are equal without places are read from the same bare state. -/
theorem ParseState.bare_eq {first second : List Token}
    (same : (significant first ++ [endToken first]).map (Token.relocate Span.erase)
      = (significant second ++ [endToken second]).map (Token.relocate Span.erase)) :
    bare first = bare second := by
  simp only [List.map_append, List.map_singleton] at same
  obtain ⟨pending, last⟩ := List.append_inj' same rfl
  rw [bare, bare, pending, List.singleton_inj.mp last]

/-- The state in which the reading of a source begins differs from the bare state in places
only. -/
theorem relocated_start (tokens : List Token) :
    Relocated Span.erase (tokenFindings tokens) [] (.start tokens) (.bare tokens) := by
  refine ⟨rfl, rfl, rfl, rfl, [], ?_, rfl⟩
  rw [List.append_nil]
  rfl

/-- Without its places, a tree is read from the tokens without theirs. -/
theorem parse_tree_erase (tokens : List Token) :
    (parse tokens).tree.relocate Span.erase
      = ⟨.document,
          (Rule.declarations (.bare tokens)).children
            ++ [.token (Rule.declarations (.bare tokens)).last],
          .origin⟩ := by
  have read := (relocated_start tokens).declarations Span.carries_erase
  rw [read.children, read.last, parse, documentNode, Node.relocate, Element.relocateAll_eq_map,
    List.map_append]
  rfl

/-- So are the problems that the grammar finds. -/
theorem parse_findings_erase (tokens : List Token) :
    ∃ added, (parse tokens).findings = tokenFindings tokens ++ added
      ∧ added.map (·.problem) = (Rule.declarations (.bare tokens)).reports.map (·.problem) := by
  have read := (relocated_start tokens).declarations Span.carries_erase
  obtain ⟨added, told, bareTold⟩ := read.reports
  refine ⟨added, told, ?_⟩
  rw [bareTold, List.nil_append, List.map_map]
  rfl

/-! ## Stages behind the grammar -/

section Erased

variable {d e : Document} (same : d.erased = e.erased)

include same

/-- Documents that differ at most in their places are resolved alike. -/
theorem resolve_of_erased (imports : Imports) (config : Config) :
    (resolve d imports config).document.erased = (resolve e imports config).document.erased
      ∧ (resolve d imports config).symbols = (resolve e imports config).symbols
      ∧ (resolve d imports config).findings.map (·.problem)
        = (resolve e imports config).findings.map (·.problem) := by
  have both : resolve d.erased imports config = resolve e.erased imports config := by rw [same]
  rw [Document.erased, Document.erased, resolve_relocate, resolve_relocate] at both
  obtain ⟨documents, symbols, findings⟩ := Resolved.mk.inj both
  refine ⟨documents, symbols, ?_⟩
  have problems := congrArg (List.map Diagnostic.problem) findings
  rw [List.map_map, List.map_map] at problems
  exact problems

/-- Documents that are equal without places have the same problems. Both are compared with the
document without places, with which every check commutes. -/
theorem validationFindings_of_erased (config : Config) :
    (validationFindings config d).map (·.problem) = (validationFindings config e).map (·.problem) := by
  have both : validationFindings config d.erased = validationFindings config e.erased := by rw [same]
  rw [Document.erased, Document.erased, validationFindings_relocate, validationFindings_relocate]
    at both
  have problems := congrArg (List.map Diagnostic.problem) both
  rw [List.map_map, List.map_map] at problems
  exact problems

end Erased

/-! ## Two runs -/

/-- The codes of the lexer are those of the problems that lie in tokens. -/
theorem Problem.startsWith_code (problem : Problem) :
    problem.code.startsWith "lexer::" = problem.isLexical := by
  rw [Bool.eq_iff_iff, String.startsWith_string_iff]
  cases problem <;> dsimp only [code, isLexical] <;> decide +kernel

/-- The problems of two lists of findings are those of the one and those of the other. -/
theorem nonlexicalProblems_append (first second : List Diagnostic) :
    nonlexicalProblems (first ++ second) = nonlexicalProblems first ++ nonlexicalProblems second := by
  rw [nonlexicalProblems, List.filter_append, List.map_append]
  rfl

/-- Findings with the same problems keep the same ones when those of the lexer are left out,
since a code is told by the problem. -/
theorem nonlexicalProblems_congr {first second : List Diagnostic}
    (same : first.map (·.problem) = second.map (·.problem)) :
    nonlexicalProblems first = nonlexicalProblems second := by
  have chosen : ∀ ds : List Diagnostic, nonlexicalProblems ds
      = (ds.map (·.problem)).filter fun problem => !problem.code.startsWith "lexer::" := by
    intro ds
    rw [List.filter_map]
    rfl
  rw [chosen, chosen, same]

/-- The order of findings does not matter for which problems are left. -/
theorem nonlexicalProblems_perm {first second : List Diagnostic} (perm : first.Perm second) :
    (nonlexicalProblems first).Perm (nonlexicalProblems second) :=
  (perm.filter _).map _

/-- Nothing is left of what was found in the tokens of a source. -/
theorem nonlexicalProblems_tokenFindings (source : String) :
    nonlexicalProblems (tokenFindings (tokenize source)) = [] := by
  rw [nonlexicalProblems, List.map_eq_nil_iff, List.filter_eq_nil_iff]
  intro d member
  rw [Diagnostic.code, Problem.startsWith_code, tokenFindings_lexical source d member]
  simp

/-- Layout does not matter: sources whose tokens that count agree in kind, lexeme and
fault have, without places, the same document; they have the same types, and the same
problems besides those of the lexer.

Proof: with all places erased the two sources have one list of significant tokens, and so one
tree, since erasing is carried through the grammar. The rest goes stage by stage: the document
without places, its resolution, and the problems of the findings, which no stage finds by
places. -/
theorem layout_insensitive (first second name : String) (imports : Imports) (config : Config)
    (same : List.Forall₂ Token.SameText (significantTokens first) (significantTokens second)) :
    (analyze first name imports config).document.erased
        = (analyze second name imports config).document.erased
      ∧ (analyze first name imports config).symbols = (analyze second name imports config).symbols
      ∧ (nonlexicalProblems (analyze first name imports config).diagnostics).Perm
          (nonlexicalProblems (analyze second name imports config).diagnostics) := by
  have bare : ParseState.bare (tokenize first) = ParseState.bare (tokenize second) := by
    apply ParseState.bare_eq
    rw [← significantTokens_eq, ← significantTokens_eq]
    exact map_relocate_of_sameText same
  have trees : (parseSource first).tree.relocate Span.erase
      = (parseSource second).tree.relocate Span.erase := by
    rw [parseSource, parseSource, parse_tree_erase, parse_tree_erase, bare]
  have documents : ((parseSource first).tree.toDocument name).erased
      = ((parseSource second).tree.toDocument name).erased := by
    rw [← Node.toDocument_erased Span.erase, trees, Node.toDocument_erased]
  obtain ⟨resolved, symbols, resolution⟩ := resolve_of_erased documents imports config
  refine ⟨resolved, symbols, ?_⟩
  have parsing : nonlexicalProblems (parseSource first).findings
      = nonlexicalProblems (parseSource second).findings := by
    obtain ⟨added, told, problems⟩ := parse_findings_erase (tokenize first)
    obtain ⟨otherAdded, otherTold, otherProblems⟩ := parse_findings_erase (tokenize second)
    rw [parseSource, parseSource, told, otherTold, nonlexicalProblems_append,
      nonlexicalProblems_append, nonlexicalProblems_tokenFindings, nonlexicalProblems_tokenFindings]
    rw [← bare] at otherProblems
    exact congrArg ([] ++ ·) (nonlexicalProblems_congr (problems.trans otherProblems.symm))
  have building : (parseSource first).tree.documentFindings.map (·.problem)
      = (parseSource second).tree.documentFindings.map (·.problem) := by
    rw [← Node.documentFindings_problems Span.erase, trees, Node.documentFindings_problems]
  have checks := validationFindings_of_erased resolved config
  have firstFound := nonlexicalProblems_perm (analyze_diagnostics_perm first name imports config)
  have secondFound := nonlexicalProblems_perm (analyze_diagnostics_perm second name imports config)
  simp only [nonlexicalProblems_append] at firstFound secondFound
  rw [parsing, nonlexicalProblems_congr building, nonlexicalProblems_congr resolution] at firstFound
  refine firstFound.trans (.trans ?_ secondFound.symm)
  exact .append_left _ (.of_eq (nonlexicalProblems_congr checks))

/-- A field without its semicolon. -/
def tightSource : String := "message M \x7bfield f:T=1\x7d"

/-- The same tokens with a comment, a stray character and other blanks between them. -/
def wideSource : String := "message M // a comment\n\x7b\n  field f : T @ = 1\n\x7d\n"

/-- Two sources that differ in blanks and comments have the same document without places, the
same symbols, and the same problems. -/
theorem tightSource_wideSource :
    List.Forall₂ Token.SameText (significantTokens tightSource) (significantTokens wideSource)
      ∧ (analyze tightSource "main" .empty .standard).document.erased
        = (analyze wideSource "main" .empty .standard).document.erased
      ∧ (analyze tightSource "main" .empty .standard).symbols
        = (analyze wideSource "main" .empty .standard).symbols
      ∧ (nonlexicalProblems (analyze tightSource "main" .empty .standard).diagnostics).Perm
        (nonlexicalProblems (analyze wideSource "main" .empty .standard).diagnostics) := by
  have same : List.Forall₂ Token.SameText (significantTokens tightSource)
      (significantTokens wideSource) := by decide +kernel
  exact ⟨same, layout_insensitive tightSource wideSource "main" .empty .standard same⟩

end MessageSchema
