import Mathlib.Data.List.TakeWhile
import MessageSchema.Proofs.Shift
import MessageSchema.Proofs.Streams

/-!
# Reading starts afresh behind a newline

No token but a blank and a block comment goes on behind a newline. So if a text
ends in a newline and every block comment in it is closed, its tokens do not
depend on what follows, as long as that does not begin with a blank; and what
follows is read as it would be by itself, further on.

The readers are taken one by one. A reader that stops within a text stops there
whatever is put behind the text.
-/

namespace MessageSchema

/-- The text ends in a newline. -/
def Ended (text : List Char) : Prop :=
  text.getLast? = some '\n'

namespace Ended

variable {c : Char} {rest text : List Char}

/-- A text that ends in a newline is not empty. -/
theorem ne_nil (ended : Ended text) : text ≠ [] := by
  rintro rfl
  exact nomatch ended

/-- There is a newline in it. -/
theorem mem (ended : Ended text) : '\n' ∈ text :=
  List.mem_of_getLast? ended

/-- Behind any other character the text still ends in a newline. -/
theorem tail (ended : Ended (c :: rest)) (other : c ≠ '\n') : Ended rest := by
  cases rest with
  | nil => exact absurd (Option.some.inj ended) other
  | cons d more => exact ended

/-- What is left of it, if anything is, ends in the same newline. -/
theorem of_suffix (ended : Ended text) (suffix : rest <:+ text) (more : rest ≠ []) : Ended rest := by
  obtain ⟨taken, rfl⟩ := suffix
  rw [Ended, List.getLast?_append_of_ne_nil _ more] at ended
  exact ended

end Ended

/-- What is taken as long as `p` holds is the same with more text behind, if `p`
fails somewhere before that text or right at its beginning.

Proof: by induction on the text. -/
theorem span_append {p : Char → Bool} {text more : List Char}
    (stop : (∃ c ∈ text, p c = false) ∨ ∀ c ∈ more.head?, p c = false) :
    (text ++ more).takeWhile p = text.takeWhile p
      ∧ (text ++ more).dropWhile p = text.dropWhile p ++ more := by
  induction text with
  | nil =>
    cases more with
    | nil => exact ⟨rfl, rfl⟩
    | cons c rest =>
      have fails : p c = false := by simpa using stop
      simp [fails]
  | cons c rest ih =>
    cases holds : p c with
    | false => simp [holds]
    | true =>
      have later : (∃ d ∈ rest, p d = false) ∨ ∀ d ∈ more.head?, p d = false := by
        rcases stop with ⟨d, member, fails⟩ | atOnce
        · rcases List.mem_cons.mp member with rfl | inside
          · exact Bool.noConfusion (holds.symm.trans fails)
          · exact .inl ⟨d, inside, fails⟩
        · exact .inr atOnce
      simp [holds, (ih later).1, (ih later).2]

/-- What no newline belongs to is taken up to the newline at the latest, so more text does not
matter. -/
theorem span_append_of_ended {p : Char → Bool} {text : List Char} (ended : Ended text)
    (newline : p '\n' = false) (more : List Char) :
    (text ++ more).takeWhile p = text.takeWhile p
      ∧ (text ++ more).dropWhile p = text.dropWhile p ++ more :=
  span_append (.inl ⟨'\n', ended.mem, newline⟩)

/-- What is left behind such characters still ends in the newline. -/
theorem Ended.dropWhile {p : Char → Bool} {text : List Char} (ended : Ended text)
    (newline : p '\n' = false) : Ended (text.dropWhile p) := by
  refine ended.of_suffix (List.dropWhile_suffix p) ?_
  intro none_left
  have all := List.dropWhile_eq_nil_iff.mp none_left '\n' ended.mem
  rw [newline] at all
  exact Bool.noConfusion all

/-! ## Quoted texts -/

namespace Literal.Quoted

/-- An escape of one letter. -/
theorem escape_single {c : Char} {rest : List Char} (notNewline : c ≠ '\n')
    (notScalar : ∀ digits, c = 'u' → rest = '\x7b' :: digits → False) :
    escape (c :: rest)
      = if (letterEscape? c).isSome then (.letter c, rest) else (.broken [c], rest) := by
  rw [escape]
  · exact notNewline
  · exact notScalar

/-- More text behind does not turn a letter into the beginning of a `\u`. -/
theorem noScalar_append {c : Char} {rest : List Char} (ended : Ended rest)
    (notScalar : ∀ digits, c = 'u' → rest = '\x7b' :: digits → False) (more : List Char) :
    ∀ digits, c = 'u' → rest ++ more = '\x7b' :: digits → False := by
  intro digits letter brace
  obtain ⟨d, others, rfl⟩ := List.exists_cons_of_ne_nil ended.ne_nil
  obtain ⟨rfl, -⟩ := List.cons.inj brace
  exact notScalar others letter rfl

/-- An escape does not reach over a newline.

Proof: by what the escape finds. Digits stop at the newline at the latest, so the brace behind
them is found or missing within the text. -/
theorem escape_append {text : List Char} (ended : Ended text) (more : List Char) :
    escape (text ++ more) = ((escape text).1, (escape text).2 ++ more)
      ∧ Ended (escape text).2 := by
  fun_cases escape text with
  | case1 => exact absurd rfl ended.ne_nil
  | case2 rest => exact ⟨rfl, ended⟩
  | case3 rest digits after found =>
    have inside : Ended rest := (ended.tail (by decide)).tail (by decide)
    have cut := span_append_of_ended (p := Number.isDigit 16) inside (by decide) more
    have left := inside.dropWhile (p := Number.isDigit 16) (by decide)
    rw [found] at left cut
    refine ⟨?_, left.tail (by decide)⟩
    simp [escape, cut.1, cut.2, digits]
  | case4 rest digits noBrace =>
    have inside : Ended rest := (ended.tail (by decide)).tail (by decide)
    have cut := span_append_of_ended (p := Number.isDigit 16) inside (by decide) more
    have left := inside.dropWhile (p := Number.isDigit 16) (by decide)
    refine ⟨?_, left⟩
    obtain ⟨d, others, split⟩ := List.exists_cons_of_ne_nil left.ne_nil
    have notBrace : d ≠ '\x7d' := by
      rintro rfl
      exact noBrace others split
    have cutRest := cut.2
    rw [split] at cutRest
    simp [escape, cut.1, cutRest, digits, split, notBrace]
  | case5 c rest notNewline notScalar letter =>
    have inside : Ended rest := ended.tail notNewline
    refine ⟨?_, inside⟩
    rw [List.cons_append, escape_single notNewline (noScalar_append inside notScalar more), if_pos letter]
  | case6 c rest notNewline notScalar noLetter =>
    have inside : Ended rest := ended.tail notNewline
    refine ⟨?_, inside⟩
    rw [List.cons_append, escape_single notNewline (noScalar_append inside notScalar more), if_neg noLetter]

/-- The same scan with more text behind what is left. -/
def Scan.followedBy (scan : Scan) (more : List Char) : Scan :=
  { scan with rest := scan.rest ++ more }

/-- A quoted text ends at a newline at the latest.

Proof: by induction on the scan. It stops at the newline, if not before, and so does not come to
the text behind. -/
theorem scan_append {text : List Char} (ended : Ended text) (more : List Char) :
    scan (text ++ more) = (scan text).followedBy more := by
  fun_induction scan text with
  | case1 => exact absurd rfl ended.ne_nil
  | case2 rest =>
    rw [List.cons_append, scan]
    rfl
  | case3 rest =>
    rw [List.cons_append, scan]
    rfl
  | case4 rest _ ih =>
    obtain ⟨same, left⟩ := escape_append (ended.tail (by decide)) more
    rw [List.cons_append, scan, same, ih left]
    rfl
  | case5 c rest notQuote notNewline notEscape ih =>
    rw [List.cons_append, scan, ih (ended.tail notNewline)]
    · rfl
    · exact notQuote
    · exact notNewline
    · exact notEscape

end Literal.Quoted

/-! ## Readings -/

namespace Reading

/-- The same reading with more text behind what is left. -/
def followedBy (reading : Reading) (more : List Char) : Reading :=
  { reading with rest := reading.rest ++ more }

/-- A run of characters ends where it ended, if something in the text ends it or nothing more of
it follows. -/
theorem run_append (kind : TokenKind) {p : Char → Bool} (c : Char) {rest more : List Char}
    (stop : (∃ d ∈ rest, p d = false) ∨ ∀ d ∈ more.head?, p d = false) :
    run kind p c (rest ++ more) = (run kind p c rest).followedBy more := by
  obtain ⟨taken, left⟩ := span_append stop
  rw [run, taken, left]
  rfl

/-- A comment that is closed is closed at the same place with more text behind. By induction on
the search, in which no character of the text is followed by anything new. -/
theorem commentEnd?_append {text taken after : List Char} (more : List Char)
    (found : commentEnd? text = some (taken, after)) :
    commentEnd? (text ++ more) = some (taken, after ++ more) := by
  fun_induction commentEnd? text generalizing taken after with
  | case1 => cases found
  | case2 rest =>
    cases found
    rfl
  | case3 c rest notEnd ih =>
    obtain ⟨⟨inner, left⟩, deeper, same⟩ := Option.map_eq_some_iff.mp found
    cases same
    have stillNot : ∀ others, c = '*' → rest ++ more = '/' :: others → False := by
      intro others star slash
      cases rest with
      | nil => cases deeper
      | cons d rest =>
        obtain ⟨rfl, -⟩ := List.cons.inj slash
        exact notEnd rest star rfl
    rw [List.cons_append, commentEnd?, ih deeper]
    · rfl
    · exact stillNot

/-- A closed block comment is the same whatever follows. -/
theorem blockComment_append {rest : List Char} (more : List Char)
    (closed : (blockComment rest).fault ≠ some .unterminatedComment) :
    blockComment (rest ++ more) = (blockComment rest).followedBy more := by
  cases found : commentEnd? rest with
  | none => exact absurd (by simp [blockComment, found]) closed
  | some pair =>
    obtain ⟨taken, after⟩ := pair
    simp [blockComment, found, commentEnd?_append more found, followedBy]

/-- A quoted text ends at its quote or before a newline, so in a text that ends in one it does
not see what follows. -/
theorem quoted_append {rest : List Char} (ended : Ended rest) (more : List Char) :
    quoted (rest ++ more) = (quoted rest).followedBy more := by
  rw [quoted, Literal.Quoted.scan_append ended]
  rfl

/-- A word ends before the newline. -/
theorem word_append (c : Char) {rest : List Char} (ended : Ended rest) (more : List Char) :
    word c (rest ++ more) = (word c rest).followedBy more := by
  obtain ⟨taken, left⟩ := span_append_of_ended (p := isWord) ended (by decide) more
  rw [word, taken, left]
  rfl

/-- The tail of a number ends before the newline, whatever it has taken until then. The
induction follows the tail; all that it takes are characters of words, points before digits and
signs, none of which is a newline. -/
theorem numberTail_of_ended {last : Char} {dotted hexadecimal : Bool} {text : List Char}
    (ended : Ended text) (more : List Char) :
    numberTail last dotted hexadecimal (text ++ more)
      = ((numberTail last dotted hexadecimal text).1,
        (numberTail last dotted hexadecimal text).2 ++ more) := by
  have notNewline : ∀ {c : Char}, isWord c = true → c ≠ '\n' := by
    rintro c word rfl
    exact absurd word (by decide)
  fun_induction numberTail last dotted hexadecimal text with
  | case1 => exact absurd rfl ended.ne_nil
  | case2 last dotted hexadecimal c word =>
    exact absurd rfl (ended.tail (notNewline word)).ne_nil
  | case3 last dotted hexadecimal c word nowHexadecimal sign after signed taken left same ih =>
    have isSign : sign ≠ '\n' := by
      rintro rfl
      simp at signed
    have later := ih ((ended.tail (notNewline word)).tail isSign)
    rw [same] at later
    rw [List.cons_append, List.cons_append, numberTail, if_pos word]
    simp only [nowHexadecimal] at signed later
    simp only [signed, if_true, later]
  | case4 last dotted hexadecimal c word nowHexadecimal sign after unsigned taken left same ih =>
    have later := ih (ended.tail (notNewline word))
    rw [same] at later
    rw [List.cons_append, List.cons_append, numberTail, if_pos word]
    simp only [nowHexadecimal] at unsigned later
    rw [List.cons_append] at later
    simp only [unsigned, later]
    rfl
  | case5 last dotted hexadecimal c after notWord dot taken left same ih =>
    have isDot : c ≠ '\n' := by
      rintro rfl
      simp at dot
    have later := ih (ended.tail isDot)
    rw [same] at later
    rw [List.cons_append, numberTail, if_neg notWord, if_pos dot, later]
  | case6 last dotted hexadecimal c after notWord notDot =>
    rw [List.cons_append, numberTail, if_neg notWord, if_neg notDot]

/-- A number ends before the newline, with or without a minus sign. -/
theorem number_append (c : Char) {rest : List Char} (ended : Ended rest) (more : List Char) :
    number c (rest ++ more) = (number c rest).followedBy more := by
  rw [number, numberTail_of_ended ended]
  rfl

/-- The first character is the same with more text behind. -/
theorem head?_append_of_ended {rest : List Char} (ended : Ended rest) (more : List Char) :
    (rest ++ more).head? = rest.head? := by
  obtain ⟨d, others, rfl⟩ := List.exists_cons_of_ne_nil ended.ne_nil
  rfl

/-- A reading in a text that ends in a newline does not depend on what follows,
unless it is of an open block comment or the text behind begins with a blank.

Proof: the cases are those of reading. A mark, a quote or a word stops before the newline; a
line comment ends there; and a run of blanks goes on only if what follows begins with one, which
is excluded. -/
theorem read_append {c : Char} {rest more : List Char} (ended : Ended (c :: rest))
    (closed : (read c rest).fault ≠ some .unterminatedComment)
    (apart : ∀ d ∈ more.head?, Text.isBlank d = false) :
    read c (rest ++ more) = (read c rest).followedBy more := by
  -- A text whose first character is no blank goes on to a newline.
  have inside : Text.isBlank c = false → Ended rest := by
    intro notBlank
    refine ended.tail ?_
    rintro rfl
    exact absurd notBlank (by decide)
  revert closed
  fun_cases read c rest with
  | case1 =>
    rename_i mark found
    intro _
    simp [read, found, single, followedBy]
  | case2 =>
    rename_i noMark slash after
    intro _
    subst slash
    rw [List.cons_append, read, noMark]
    simp only [if_true]
    exact run_append .comment '/' (.inl ⟨'\n', (inside (by decide)).mem, by decide⟩)
  | case3 =>
    rename_i noMark slash after
    intro closed
    subst slash
    rw [List.cons_append, read, noMark]
    simp only [if_true]
    exact blockComment_append more closed
  | case4 =>
    rename_i noMark slash notLine notBlock
    intro _
    subst slash
    obtain ⟨d, others, rfl⟩ := List.exists_cons_of_ne_nil (inside (by decide)).ne_nil
    have line : d ≠ '/' := fun same => notLine others (same ▸ rfl)
    have block : d ≠ '*' := fun same => notBlock others (same ▸ rfl)
    simp [read, noMark, line, block, stray, followedBy]
  | case5 =>
    rename_i noMark notSlash quote
    intro _
    subst quote
    simp only [read, noMark, notSlash, if_false, if_true]
    exact quoted_append (inside (by decide)) more
  | case6 =>
    rename_i noMark notSlash notQuote blank
    intro _
    simp only [read, noMark, notSlash, notQuote, blank, if_false, if_true]
    exact run_append .whitespace c (.inr apart)
  | case7 =>
    rename_i noMark notSlash notQuote notBlank identifier
    intro _
    simp only [read, noMark, notSlash, notQuote, notBlank, identifier, if_false, if_true]
    exact word_append c (inside (by simpa using notBlank)) more
  | case8 =>
    rename_i noMark notSlash notQuote notBlank notIdentifier starts
    intro _
    have ended := inside (by simpa using notBlank)
    have stillStarts : startsNumber c (rest ++ more) = true := by
      rw [startsNumber, head?_append_of_ended ended]
      exact starts
    simp only [read, noMark, notSlash, notQuote, notBlank, notIdentifier, stillStarts, if_false,
      if_true]
    exact number_append c ended more
  | case9 =>
    rename_i noMark notSlash notQuote notBlank notIdentifier notNumber
    intro _
    have ended := inside (by simpa using notBlank)
    have stillNot : ¬ startsNumber c (rest ++ more) = true := by
      rw [startsNumber, head?_append_of_ended ended]
      exact notNumber
    simp only [read, noMark, notSlash, notQuote, notBlank, notIdentifier, stillNot, if_false]
    rfl

end Reading

/-! ## Token streams -/

/-- A text that ends in a newline and leaves no block comment open has its tokens
whatever follows, and what follows has its own.

Proof: by induction on the reading. A token that is read from the front is the same with more
text behind, for a newline stands between; and if the front is used up, what follows is read on
its own. -/
theorem tokensFrom_append (p : Position) {text more : List Char} (ended : text = [] ∨ Ended text)
    (closed : ∀ t ∈ tokensFrom p text, t.fault ≠ some .unterminatedComment)
    (apart : ∀ d ∈ more.head?, Text.isBlank d = false) :
    tokensFrom p (text ++ more)
      = (tokensFrom p text).dropLast ++ tokensFrom (p.advanceAll text) more := by
  fun_induction tokensFrom p text with
  | case1 p => rfl
  | case2 p c rest reading _ ih =>
    have whole : Ended (c :: rest) := ended.resolve_left (List.cons_ne_nil c rest)
    have same : Reading.read c (rest ++ more) = reading.followedBy more :=
      Reading.read_append whole (closed _ List.mem_cons_self) apart
    have left : reading.rest = [] ∨ Ended reading.rest := by
      by_cases empty : reading.rest = []
      · exact .inl empty
      · exact .inr (whole.of_suffix ⟨_, Reading.read_lexeme c rest⟩ empty)
    have later := ih left fun t member => closed t (List.mem_cons_of_mem _ member)
    have position : (p.advanceAll reading.lexeme).advanceAll reading.rest
        = p.advanceAll (c :: rest) := by
      rw [← Position.advanceAll_append, Reading.read_lexeme]
    obtain ⟨body, split, -⟩ := exists_tokensFrom (p.advanceAll reading.lexeme) reading.rest
    have more_left : tokensFrom (p.advanceAll reading.lexeme) reading.rest ≠ [] := by
      rw [split]
      simp
    rw [List.cons_append, tokensFrom, same, List.dropLast_cons_of_ne_nil more_left,
      List.cons_append, ← position, ← later]
    rfl

/-! ## The place behind a text -/

namespace Shift

variable (shift : Shift)

/-- Counting one character further on is counting it, further on. -/
theorem position_advance (p : Position) (c : Char) :
    (shift.position p).advance c = shift.position (p.advance c) := by
  by_cases newline : c = '\n'
  · simp [Position.advance, position, newline, Nat.add_right_comm]
  · simp [Position.advance, position, newline, Nat.add_right_comm]

/-- The same for several characters, by induction on them. -/
theorem position_advanceAll (p : Position) (text : List Char) :
    (shift.position p).advanceAll text = shift.position (p.advanceAll text) := by
  induction text generalizing p with
  | nil => rfl
  | cons c rest ih =>
    rw [Position.advanceAll_cons, Position.advanceAll_cons, position_advance, ih]

/-- A text that stands further on has its tokens further on. -/
theorem tokensFrom_position (p : Position) (text : List Char) :
    tokensFrom (shift.position p) text = (tokensFrom p text).map shift.token := by
  fun_induction tokensFrom p text with
  | case1 p => simp [tokensFrom, Token.endAt, token, between_position]
  | case2 p c rest reading _ ih =>
    rw [tokensFrom, position_advanceAll, ih, List.map_cons, Reading.tokenAt, position_advanceAll,
      between_position]
    rfl

/-- How far a source is moved by a text before it. -/
def past (text : String) : Shift :=
  ⟨text.utf8ByteSize, text.toList.count '\n'⟩

/-- The bytes and lines in front of a place behind a text. -/
theorem advanceAll_offset_line (p : Position) (text : List Char) :
    (p.advanceAll text).offset = p.offset + (String.ofList text).utf8ByteSize
      ∧ (p.advanceAll text).line = p.line + text.count '\n' := by
  induction text generalizing p with
  | nil => exact ⟨rfl, rfl⟩
  | cons c rest ih =>
    obtain ⟨offset, line⟩ := ih (p.advance c)
    have bytes : (String.ofList (c :: rest)).utf8ByteSize
        = c.utf8Size + (String.ofList rest).utf8ByteSize := by
      rw [String.ofList_cons, String.utf8ByteSize_append, String.utf8ByteSize_singleton]
    rw [Position.advanceAll_cons, offset, line, bytes]
    by_cases newline : c = '\n'
    · simp [Position.advance, newline]
      omega
    · simp [Position.advance, newline, Nat.add_assoc]

/-- Behind a newline a line begins. -/
theorem advanceAll_column (p : Position) {text : List Char} (ended : Ended text) :
    (p.advanceAll text).column = 1 := by
  have split := List.dropLast_append_getLast? _ ended
  rw [← split, Position.advanceAll_append, Position.advanceAll_cons, Position.advanceAll_nil,
    Position.advance, if_pos rfl]

/-- Behind a text that ends in a newline a line begins, so the place there is the origin, moved
by the bytes and the lines of the text. -/
theorem position_past {text : String} (ended : Ended text.toList) :
    Position.origin.advanceAll text.toList = (past text).position .origin := by
  obtain ⟨offset, line⟩ := advanceAll_offset_line .origin text.toList
  have column := advanceAll_column .origin ended
  rw [String.ofList_toList] at offset
  generalize Position.origin.advanceAll text.toList = place at offset line column ⊢
  obtain ⟨_, _, _⟩ := place
  simp only [position, past, Position.origin, Position.mk.injEq] at offset line column ⊢
  omega

end Shift

/-! ## The places of the tokens -/

/-- Behind characters the offset is greater than before them. -/
theorem Position.offset_lt_advanceAll (p : Position) {text : List Char} (more : text ≠ []) :
    p.offset < (p.advanceAll text).offset := by
  obtain ⟨c, rest, rfl⟩ := List.exists_cons_of_ne_nil more
  have size := c.utf8Size_pos
  rw [(Shift.advanceAll_offset_line p (c :: rest)).1, String.ofList_cons,
    String.utf8ByteSize_append, String.utf8ByteSize_singleton]
  omega

/-- No token starts before the place where reading begins, as the counters only go up. -/
theorem le_start_of_mem_tokensFrom (p : Position) (text : List Char) :
    ∀ t ∈ tokensFrom p text, p.offset ≤ t.span.start := by
  fun_induction tokensFrom p text with
  | case1 p =>
    intro t member
    rw [List.mem_singleton.mp member]
    exact Nat.le_refl _
  | case2 p c rest reading _ ih =>
    intro t member
    rcases List.mem_cons.mp member with rfl | inside
    · exact Nat.le_refl _
    · have further := p.offset_lt_advanceAll (Reading.read_lexeme_ne_nil c rest)
      exact Nat.le_trans (Nat.le_of_lt further) (ih t inside)

/-- Every token starts behind the one before it, the end token too. -/
theorem tokensFrom_starts (p : Position) (text : List Char) :
    (tokensFrom p text).Pairwise fun t u => t.span.start < u.span.start := by
  fun_induction tokensFrom p text with
  | case1 p => exact List.pairwise_singleton _ _
  | case2 p c rest reading _ ih =>
    refine List.pairwise_cons.mpr ⟨?_, ih⟩
    intro t member
    have further := p.offset_lt_advanceAll (Reading.read_lexeme_ne_nil c rest)
    exact Nat.lt_of_lt_of_le further (le_start_of_mem_tokensFrom _ _ t member)

/-- A token that was read is still one when it is moved, since nothing but its place changes. -/
theorem Token.IsRead.shift {t : Token} (read : t.IsRead) (shift : Shift) :
    (shift.token t).IsRead := by
  obtain ⟨c, rest, p, rfl⟩ := read
  refine ⟨c, rest, shift.position p, ?_⟩
  rw [Reading.tokenAt, Reading.tokenAt, Shift.position_advanceAll, Shift.between_position]
  rfl

/-- Behind a text that ends in a newline, a source is read as by itself. -/
theorem tokenizeWithTrivia_append {text tail : String} (ended : Ended text.toList)
    (closed : ∀ t ∈ tokenizeWithTrivia text, t.fault ≠ some .unterminatedComment)
    (apart : ∀ c ∈ tail.toList.head?, Text.isBlank c = false) :
    tokenizeWithTrivia (text ++ tail)
      = (tokenizeWithTrivia text).dropLast
        ++ (tokenizeWithTrivia tail).map (Shift.past text).token := by
  rw [tokenizeWithTrivia, String.toList_append, tokensFrom_append _ (.inr ended) closed apart,
    Shift.position_past ended, Shift.tokensFrom_position]
  rfl

/-- The same without layout. -/
theorem tokenize_append {text tail : String} (ended : Ended text.toList)
    (closed : ∀ t ∈ tokenize text, t.fault ≠ some .unterminatedComment)
    (apart : ∀ c ∈ tail.toList.head?, Text.isBlank c = false) :
    tokenize (text ++ tail)
      = (tokenize text).dropLast ++ (tokenize tail).map (Shift.past text).token := by
  have allClosed := fault_of_tokenize (p := (· ≠ some .unterminatedComment)) nofun closed
  obtain ⟨body, last, whole, tokens, -⟩ := exists_tokenize text
  rw [tokens, tokenize, tokenizeWithTrivia_append ended allClosed apart, whole,
    List.dropLast_concat, List.dropLast_concat, List.filter_append, List.filter_map]
  rfl

/-- Reading starts afresh behind a newline. If a text followed by a newline leaves no block comment
open, and a second text is empty or begins with no blank, then the tokens of both are those of the
first one without its end, and behind them those of the second one. These keep their kinds, texts
and faults; their bytes and lines are counted from the newline on, and their columns stay.

Proof: the text ends in a newline, which no reader crosses unless a comment is open or blanks
follow. So its tokens are read as they are without more text, and behind them the counters stand
where a moved source begins. -/
theorem reading_restarts_behind_newline (text tail : String)
    (closed : ∀ t ∈ tokenizeWithTrivia (text ++ "\n"), t.fault ≠ some .unterminatedComment)
    (apart : ∀ c ∈ tail.toList.head?, Text.isBlank c = false) :
    let bytes := (text ++ "\n").utf8ByteSize
    let lines := (text ++ "\n").toList.count '\n'
    ∃ body last, tokenizeWithTrivia (text ++ "\n") = body ++ [last] ∧ last.kind = .eof
      ∧ (∀ t ∈ body, t.kind ≠ .eof)
      ∧ tokenizeWithTrivia (text ++ "\n" ++ tail)
        = body ++ (tokenizeWithTrivia tail).map fun t =>
          ⟨t.kind, t.lexeme,
            ⟨t.span.start + bytes, t.span.stop + bytes, t.span.line + lines, t.span.column⟩,
            t.fault⟩ := by
  intro bytes lines
  have ended : Ended (text ++ "\n").toList := by simp [Ended]
  obtain ⟨body, last, whole, -, isEnd, -, allRead⟩ := exists_tokenize (text ++ "\n")
  refine ⟨body, last, whole, isEnd, fun t member => (allRead t member).kind_ne_eof, ?_⟩
  rw [tokenizeWithTrivia_append ended closed apart, whole, List.dropLast_concat]
  rfl

/-- A text that breaks off inside an escape. -/
def openEscape : String := "/* \u00e9\n */ \"x\\u\x7b4"

/-- What would end the escape and the quoted text. -/
def escapeEnd : String := "1\x7d\" -0x1e+"

/-- An escape that is broken off at the end of a line does not reach the next line, although
what follows there would complete it. -/
theorem openEscape_ended :
    ∃ body last, tokenizeWithTrivia (openEscape ++ "\n") = body ++ [last] ∧ last.kind = .eof
      ∧ (∀ t ∈ body, t.kind ≠ .eof)
      ∧ tokenizeWithTrivia (openEscape ++ "\n" ++ escapeEnd)
        = body ++ (tokenizeWithTrivia escapeEnd).map fun t =>
          ⟨t.kind, t.lexeme,
            ⟨t.span.start + 17, t.span.stop + 17, t.span.line + 2, t.span.column⟩, t.fault⟩ := by
  have bytes : (openEscape ++ "\n").utf8ByteSize = 17 := by decide +kernel
  have lines : (openEscape ++ "\n").toList.count '\n' = 2 := by decide +kernel
  have begins : escapeEnd.toList.head? = some '1' := by decide +kernel
  have apart : ∀ c ∈ escapeEnd.toList.head?, Text.isBlank c = false := by
    rw [begins]
    rintro c ⟨⟩
    decide
  have restarted := reading_restarts_behind_newline openEscape escapeEnd (by decide +kernel) apart
  simp only [bytes, lines] at restarted
  exact restarted

end MessageSchema
