import MessageSchema.Tree.OfTokens

/-!
# The tokens of a source

What every reading has is had by every token of a source, the end token apart: a
text that is not empty, a kind other than the end, a fault only of the sorts that
belong to tokens, and none if the token is layout. So the grammar stage, which
drops layout, sees every fault of the source.
-/

namespace MessageSchema

/-! ## One reading -/

/-- A number is no layout. -/
theorem TokenKind.isTrivia_of_isNumber {kind : TokenKind} (number : kind.isNumber = true) :
    kind.isTrivia = false := by
  cases kind with
  | whitespace => exact Bool.noConfusion number
  | comment => exact Bool.noConfusion number
  | _ => rfl

namespace Reading

/-- What can be relied on whatever was read. -/
structure Plausible (reading : Reading) : Prop where
  kind : reading.kind ≠ .eof
  lexical : ∀ problem ∈ reading.fault, problem.isLexical = true
  layout : reading.kind.isTrivia = true → reading.fault = none

/-- A reading without a fault is plausible if it is not of the end. -/
theorem Plausible.of_faultless {reading : Reading} (kind : (reading.kind == .eof) = false)
    (faultless : reading.fault = none) : reading.Plausible := by
  refine ⟨beq_eq_false_iff_ne.mp kind, ?_, fun _ => faultless⟩
  rw [faultless]
  exact nofun

/-- A reading with a fault must be of a kind that the grammar is told about. -/
theorem Plausible.of_faulty {reading : Reading} {problem : Problem}
    (kind : (reading.kind == .eof) = false) (shown : reading.kind.isTrivia = false)
    (faulty : reading.fault = some problem) (lexical : problem.isLexical = true) :
    reading.Plausible := by
  refine ⟨beq_eq_false_iff_ne.mp kind, ?_, ?_⟩
  · rw [faulty]
    rintro other ⟨⟩
    exact lexical
  · intro trivia
    rw [shown] at trivia
    exact Bool.noConfusion trivia

/-- A stray character is read with a fault of its own. -/
theorem stray_plausible (c : Char) (rest : List Char) : (stray c rest).Plausible :=
  .of_faulty rfl rfl rfl rfl

/-- A block comment is read as layout if it is closed, and with a fault if it is not. -/
theorem blockComment_plausible (rest : List Char) : (blockComment rest).Plausible := by
  fun_cases blockComment rest with
  | case1 taken after found => exact .of_faultless rfl rfl
  | case2 => exact .of_faulty rfl rfl rfl rfl

/-- A quoted text is read as a string. Its fault is an escape that is refused or a quote that is
missing, both of them faults of tokens. -/
theorem quoted_plausible (rest : List Char) : (quoted rest).Plausible := by
  cases fault : (quoted rest).fault with
  | none => exact .of_faultless rfl fault
  | some problem =>
    refine .of_faulty rfl rfl fault ?_
    simp only [quoted] at fault
    split at fault
    · obtain ⟨escape, -, rfl⟩ := Option.map_eq_some_iff.mp fault
      rfl
    · cases fault
      rfl

/-- A word is read as a keyword or an identifier, without a fault. -/
theorem word_plausible (c : Char) (rest : List Char) : (word c rest).Plausible := by
  refine .of_faultless ?_ rfl
  simp only [word]
  cases Keyword.ofText? (String.ofList (c :: rest.takeWhile isWord)) <;> rfl

/-- A text that looks like a number is one of the two kinds of numbers, well formed or not. -/
theorem numberKind_isNumber (lexeme : List Char) : (numberKind lexeme).isNumber = true := by
  unfold numberKind
  split
  · rfl
  · rfl
  · split <;> rfl

/-- A number is read as a number, with the fault that its text has. -/
theorem number_plausible (c : Char) (rest : List Char) : (number c rest).Plausible := by
  have isNumber : (number c rest).kind.isNumber = true := numberKind_isNumber _
  have kind : ((number c rest).kind == .eof) = false := by
    apply beq_eq_false_iff_ne.mpr
    intro same
    rw [same] at isNumber
    exact Bool.noConfusion isNumber
  have shown := TokenKind.isTrivia_of_isNumber isNumber
  cases fault : (number c rest).fault with
  | none => exact .of_faultless kind fault
  | some problem =>
    refine .of_faulty kind shown fault ?_
    simp only [number, numberFault?] at fault
    split at fault
    · cases fault
    · cases fault
      rfl

/-- Whatever is read is plausible. The cases are the first characters by which a reader is
chosen. -/
theorem read_plausible (c : Char) (rest : List Char) : (read c rest).Plausible := by
  fun_cases read c rest with
  | case1 => exact .of_faultless rfl rfl
  | case2 => exact .of_faultless rfl rfl
  | case3 _ _ after => exact blockComment_plausible after
  | case4 => exact stray_plausible c rest
  | case5 => exact quoted_plausible rest
  | case6 => exact .of_faultless rfl rfl
  | case7 => exact word_plausible c rest
  | case8 => exact number_plausible c rest
  | case9 => exact stray_plausible c rest

/-- Two readers make the tokens of literals.

Proof: by the branches of the reader. All others make a token of another kind. -/
theorem read_of_literal {c : Char} {rest : List Char}
    (literal : ((read c rest).kind.isNumber || (read c rest).kind == .string) = true) :
    read c rest = number c rest ∨ c = '"' ∧ read c rest = quoted rest := by
  revert literal
  fun_cases read c rest with
  | case3 _ _ after =>
    unfold blockComment
    split
    · exact fun literal => Bool.noConfusion literal
    · exact fun literal => Bool.noConfusion literal
  | case5 _ _ _ quote => exact fun _ => .inr ⟨quote, rfl⟩
  | case7 =>
    intro literal
    simp only [word] at literal
    cases found : Keyword.ofText? (String.ofList (c :: rest.takeWhile isWord)) with
    | none =>
      rw [found] at literal
      exact Bool.noConfusion literal
    | some keyword =>
      rw [found] at literal
      exact Bool.noConfusion literal
  | case8 => exact fun _ => .inl rfl
  | _ => exact fun literal => Bool.noConfusion literal

/-- Only a word can begin a declaration: it has no fault and does not begin with a
blank.

Proof: the cases are those of reading, and all but one give kinds that start nothing. -/
theorem read_startsDeclaration {c : Char} {rest : List Char}
    (starts : (read c rest).kind.startsDeclaration = true) :
    (read c rest).fault = none ∧ Text.isBlank c = false := by
  revert starts
  fun_cases read c rest with
  | case1 => exact fun starts => Bool.noConfusion starts
  | case2 => exact fun starts => Bool.noConfusion starts
  | case3 _ _ after =>
    intro starts
    unfold blockComment at starts
    split at starts
    · exact Bool.noConfusion starts
    · exact Bool.noConfusion starts
  | case4 => exact fun starts => Bool.noConfusion starts
  | case5 => exact fun starts => Bool.noConfusion starts
  | case6 => exact fun starts => Bool.noConfusion starts
  | case7 =>
    rename_i notBlank _
    exact fun _ => ⟨rfl, Bool.eq_false_iff.mpr notBlank⟩
  | case8 =>
    intro starts
    have isNumber : (number c rest).kind.isNumber = true := numberKind_isNumber _
    cases kind : (number c rest).kind with
    | keyword name =>
      rw [kind] at isNumber
      exact Bool.noConfusion isNumber
    | _ =>
      rw [kind] at starts
      exact Bool.noConfusion starts
  | case9 => exact fun starts => Bool.noConfusion starts

end Reading

/-! ## All tokens -/

/-- A token that was read from a text. -/
def Token.IsRead (t : Token) : Prop :=
  ∃ c rest p, t = (Reading.read c rest).tokenAt p

namespace Token.IsRead

variable {t : Token}

/-- A token that was read is not the end token. -/
theorem kind_ne_eof (read : t.IsRead) : t.kind ≠ .eof := by
  obtain ⟨c, rest, p, rfl⟩ := read
  exact (Reading.read_plausible c rest).kind

/-- The fault of a token that was read is one of a token. -/
theorem fault_lexical (read : t.IsRead) : ∀ problem ∈ t.fault, problem.isLexical = true := by
  obtain ⟨c, rest, p, rfl⟩ := read
  exact (Reading.read_plausible c rest).lexical

/-- Layout has no fault. -/
theorem fault_of_trivia (read : t.IsRead) (trivia : t.kind.isTrivia = true) : t.fault = none := by
  obtain ⟨c, rest, p, rfl⟩ := read
  exact (Reading.read_plausible c rest).layout trivia

/-- A token that was read has a text. -/
theorem lexeme_ne_empty (read : t.IsRead) : t.lexeme ≠ "" := by
  obtain ⟨c, rest, p, rfl⟩ := read
  intro empty
  have none_taken := congrArg String.toList empty
  rw [Reading.tokenAt, String.toList_ofList] at none_taken
  exact Reading.read_lexeme_ne_nil c rest none_taken

end Token.IsRead

/-- The tokens of a text are readings one after the other, and the end token. -/
theorem exists_tokensFrom (p : Position) (text : List Char) :
    ∃ body, tokensFrom p text = body ++ [Token.endAt (p.advanceAll text)]
      ∧ ∀ t ∈ body, t.IsRead := by
  fun_induction tokensFrom p text with
  | case1 p => exact ⟨[], rfl, fun _ member => absurd member List.not_mem_nil⟩
  | case2 p c rest reading _ ih =>
    obtain ⟨body, same, allRead⟩ := ih
    refine ⟨reading.tokenAt p :: body, ?_, ?_⟩
    · rw [same, ← Position.advanceAll_append, Reading.read_lexeme]
      rfl
    · rintro t member
      rcases List.mem_cons.mp member with rfl | inside
      · exact ⟨c, rest, p, rfl⟩
      · exact allRead t inside

/-- Every token of a source but the last was read from it. -/
theorem isRead_of_mem {source : String} {t : Token} (member : t ∈ tokenizeWithTrivia source)
    (inside : t.kind ≠ .eof) : t.IsRead := by
  obtain ⟨body, tokens, allRead⟩ := exists_tokensFrom .origin source.toList
  rw [tokenizeWithTrivia, tokens, List.mem_append, List.mem_singleton] at member
  rcases member with read | rfl
  · exact allRead t read
  · exact absurd rfl inside

/-- The tokens of a source with and without layout. -/
theorem exists_tokenize (source : String) :
    ∃ body last, tokenizeWithTrivia source = body ++ [last]
      ∧ tokenize source = body.filter (fun t => !t.kind.isTrivia) ++ [last]
      ∧ last.kind = .eof ∧ last.fault = none ∧ ∀ t ∈ body, t.IsRead := by
  obtain ⟨body, same, allRead⟩ := exists_tokensFrom .origin source.toList
  refine ⟨body, Token.endAt (Position.origin.advanceAll source.toList), same, ?_, rfl, rfl, allRead⟩
  rw [tokenize, tokenizeWithTrivia, same, List.filter_append]
  rfl

/-- The tokens that are left without layout. -/
theorem exists_tokenize_read (source : String) :
    ∃ shown last, tokenize source = shown ++ [last]
      ∧ last.kind = .eof ∧ last.fault = none ∧ ∀ t ∈ shown, t.IsRead := by
  obtain ⟨body, last, -, tokens, isEnd, sound, allRead⟩ := exists_tokenize source
  exact ⟨_, last, tokens, isEnd, sound, fun t member => allRead t (List.mem_filter.mp member).1⟩

section Read

variable {body : List Token} {last : Token}

/-- Before the end token of a source stand all other tokens. -/
theorem beforeEnd_of_read (allRead : ∀ t ∈ body, t.IsRead) (isEnd : last.kind = .eof) :
    beforeEnd (body ++ [last]) = body := by
  have kinds : ∀ t ∈ body, decide (t.kind ≠ .eof) = true := fun t member =>
    decide_eq_true (allRead t member).kind_ne_eof
  rw [beforeEnd, List.takeWhile_append_of_pos kinds, List.takeWhile_cons_of_neg (by simp [isEnd]),
    List.append_nil]

/-- The end token that is found is the last one, since no token before it is one. -/
theorem find?_end_of_read (allRead : ∀ t ∈ body, t.IsRead) (isEnd : last.kind = .eof) :
    (body ++ [last]).find? (·.kind = .eof) = some last := by
  have skipped : body.find? (·.kind = .eof) = none := by
    apply List.find?_eq_none.mpr
    intro t member
    simpa using (allRead t member).kind_ne_eof
  rw [List.find?_append, skipped, Option.none_or]
  exact List.find?_cons_of_pos (decide_eq_true isEnd)

/-- The end of a source has no fault, so that all findings are in what was read. -/
theorem tokenFindings_of_read (allRead : ∀ t ∈ body, t.IsRead) (isEnd : last.kind = .eof)
    (sound : last.fault = none) : tokenFindings (body ++ [last]) = body.filterMap Token.finding? := by
  rw [tokenFindings, beforeEnd_of_read allRead isEnd, find?_end_of_read allRead isEnd,
    Option.bind_some, Token.finding?, sound, Option.map_none, Option.toList_none, List.append_nil]

/-- The state before the tokens that were read from a source. -/
theorem start_of_read (allRead : ∀ t ∈ body, t.IsRead) (isEnd : last.kind = .eof)
    (sound : last.fault = none) :
    ParseState.start (body ++ [last])
      = ⟨body.filter (·.kind.isSignificant), last, [], false, body.filterMap Token.finding?⟩ := by
  rw [ParseState.start, significant, beforeEnd_of_read allRead isEnd,
    tokenFindings_of_read allRead isEnd sound, endToken, find?_end_of_read allRead isEnd]

end Read

/-- The grammar's tokens of a source were read from it. -/
theorem significant_read (source : String) : ∀ t ∈ significant (tokenize source), t.IsRead := by
  obtain ⟨shown, last, tokens, isEnd, -, allRead⟩ := exists_tokenize_read source
  rw [significant, tokens, beforeEnd_of_read allRead isEnd]
  intro t member
  exact allRead t (List.mem_filter.mp member).1

/-- What is found of the tokens of a source lies in the tokens. -/
theorem tokenFindings_lexical (source : String) :
    ∀ d ∈ tokenFindings (tokenize source), d.problem.isLexical = true := by
  obtain ⟨shown, last, tokens, isEnd, sound, allRead⟩ := exists_tokenize_read source
  intro d member
  rw [tokens, tokenFindings_of_read allRead isEnd sound, List.mem_filterMap] at member
  obtain ⟨t, inside, carried⟩ := member
  obtain ⟨problem, given, rfl⟩ := Option.map_eq_some_iff.mp carried
  exact (allRead t inside).fault_lexical problem given

/-- What is said of the faults without layout is said of all: layout has none. -/
theorem fault_of_tokenize {source : String} {p : Option Problem → Prop} (faultless : p none)
    (shown : ∀ t ∈ tokenize source, p t.fault) : ∀ t ∈ tokenizeWithTrivia source, p t.fault := by
  obtain ⟨body, last, whole, tokens, -, sound, allRead⟩ := exists_tokenize source
  intro t member
  cases layout : t.kind.isTrivia with
  | false =>
    apply shown
    rw [tokenize]
    exact List.mem_filter.mpr ⟨member, by simp [layout]⟩
  | true =>
    rw [whole, List.mem_append, List.mem_singleton] at member
    rcases member with inside | rfl
    · rwa [(allRead t inside).fault_of_trivia layout]
    · rwa [sound]

/-- Every fault of a source is found. -/
theorem faultless_of_tokenFindings {source : String}
    (quiet : tokenFindings (tokenize source) = []) :
    ∀ t ∈ tokenizeWithTrivia source, t.fault = none := by
  obtain ⟨shown, last, tokens, isEnd, sound, allRead⟩ := exists_tokenize_read source
  rw [tokens, tokenFindings_of_read allRead isEnd sound, List.filterMap_eq_nil_iff] at quiet
  apply fault_of_tokenize (p := (· = none)) rfl
  intro t member
  rw [tokens, List.mem_append, List.mem_singleton] at member
  rcases member with inside | rfl
  · exact Option.map_eq_none_iff.mp (quiet t inside)
  · exact sound

end MessageSchema
