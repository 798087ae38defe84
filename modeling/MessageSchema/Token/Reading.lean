import MessageSchema.Text.Blank
import MessageSchema.Literal.Quoted
import MessageSchema.Token.Basic

/-!
# Reading one token

The first character decides which reader takes over, and every reader takes as
much as it can. A reader sees only the characters ahead, never a position, so
what it takes depends on the text alone. No reader fails: what is malformed is
taken too, with the fault beside it.

The main statement, `read_lexeme`, says that a reading loses nothing: what was
taken and what is left are together the text that was read.
-/

namespace MessageSchema

/-- The kind of the token ahead, its text, its fault, and the text behind it. -/
structure Reading where
  kind : TokenKind
  lexeme : List Char
  fault : Option Problem
  rest : List Char

namespace Reading

/-- The letters and digits of ASCII and the underscore. -/
def isWord (c : Char) : Bool :=
  c.isAlphanum || c == '_'

/-- What an identifier can begin with. -/
def startsIdentifier (c : Char) : Bool :=
  c.isAlpha || c == '_'

/-- A token of one character. -/
def single (kind : TokenKind) (c : Char) (rest : List Char) : Reading :=
  ⟨kind, [c], none, rest⟩

/-- A character that begins no token. -/
def stray (c : Char) (rest : List Char) : Reading :=
  ⟨.error, [c], some (.unexpectedCharacter c), rest⟩

/-- A first character and all that follow it with property `p`. -/
def run (kind : TokenKind) (p : Char → Bool) (c : Char) (rest : List Char) : Reading :=
  ⟨kind, c :: rest.takeWhile p, none, rest.dropWhile p⟩

/-- A comment to the end of the line. -/
def lineComment (rest : List Char) : Reading :=
  run .comment (· != '\n') '/' rest

/-- The text up to and with the end mark of a comment, and what follows. -/
def commentEnd? : List Char → Option (List Char × List Char)
  | [] => none
  | '*' :: '/' :: rest => some (['*', '/'], rest)
  | c :: rest => (commentEnd? rest).map fun found => (c :: found.1, found.2)

/-- A comment between marks, given what follows the opening one. Without an end
mark it takes all the text, and is no comment. -/
def blockComment (rest : List Char) : Reading :=
  match commentEnd? rest with
  | some (taken, after) => ⟨.comment, '/' :: '*' :: taken, none, after⟩
  | none => ⟨.error, '/' :: '*' :: rest, some .unterminatedComment, []⟩

/-- A quoted text. A missing quote outweighs a bad escape, and of those the
first counts. -/
def quoted (rest : List Char) : Reading :=
  let scan := Literal.Quoted.scan rest
  let fault :=
    if scan.closed then scan.firstBad?.map fun escape => .invalidEscape (String.ofList escape)
    else some .unterminatedString
  ⟨.string, '"' :: scan.text, fault, scan.rest⟩

/-- An identifier or a keyword. -/
def word (c : Char) (rest : List Char) : Reading :=
  let lexeme := c :: rest.takeWhile isWord
  let kind := ((Keyword.ofText? (String.ofList lexeme)).map TokenKind.keyword).getD .identifier
  ⟨kind, lexeme, none, rest.dropWhile isWord⟩

/-- What belongs to a number whose last character so far is `last`, and what
follows. An `x` behind a zero makes the number hexadecimal: then no dot and no
sign belongs to it. Otherwise it takes one dot, and a sign behind an `e`. -/
def numberTail (last : Char) (dotted hexadecimal : Bool) : List Char → List Char × List Char
  | [] => ([], [])
  | c :: rest =>
    if isWord c then
      let hexadecimal := hexadecimal || ((c == 'x' || c == 'X') && last == '0')
      match rest with
      | [] => ([c], [])
      | sign :: after =>
        if !hexadecimal && Literal.Number.isExponentMark c && (sign == '+' || sign == '-') then
          let (taken, left) := numberTail sign dotted hexadecimal after
          (c :: sign :: taken, left)
        else
          let (taken, left) := numberTail c dotted hexadecimal (sign :: after)
          (c :: taken, left)
    else if c == '.' && !dotted && !hexadecimal then
      let (taken, left) := numberTail c true hexadecimal rest
      (c :: taken, left)
    else ([], c :: rest)

/-- The kind of a number. What is malformed counts as a float if it has a dot. -/
def numberKind (lexeme : List Char) : TokenKind :=
  match Literal.Number.form? lexeme with
  | some .integer => .integer
  | some .float => .float
  | none => if lexeme.contains '.' then .float else .integer

/-- The fault of a text that is read as a number and is no literal. -/
def numberFault? (lexeme : List Char) : Option Problem :=
  if (Literal.Number.form? lexeme).isSome then none
  else some (.malformedNumber (String.ofList lexeme))

/-- A number. -/
def number (c : Char) (rest : List Char) : Reading :=
  let tail := numberTail c false false rest
  let lexeme := c :: tail.1
  ⟨numberKind lexeme, lexeme, numberFault? lexeme, tail.2⟩

/-- Whether a number begins here: a digit, or a minus sign with a digit behind it. -/
def startsNumber (c : Char) (rest : List Char) : Bool :=
  c.isDigit || (c == '-' && rest.head?.any Char.isDigit)

/-- The token at the beginning of a text that is not empty. -/
def read (c : Char) (rest : List Char) : Reading :=
  match Punct.ofChar? c with
  | some mark => single (.punct mark) c rest
  | none =>
    if c = '/' then
      match rest with
      | '/' :: _ => lineComment rest
      | '*' :: after => blockComment after
      | _ => stray c rest
    else if c = '"' then quoted rest
    else if Text.isBlank c then run .whitespace Text.isBlank c rest
    else if startsIdentifier c then word c rest
    else if startsNumber c rest then number c rest
    else stray c rest

/-- A run of characters and what is left make up the text. -/
theorem run_lexeme (kind : TokenKind) (p : Char → Bool) (c : Char) (rest : List Char) :
    (run kind p c rest).lexeme ++ (run kind p c rest).rest = c :: rest := by
  simp [run, List.takeWhile_append_dropWhile]

/-- A comment that ends is followed by the rest of the text. The induction looks two characters
ahead, as the search for the closing mark does. -/
theorem commentEnd?_taken {text taken after : List Char}
    (found : commentEnd? text = some (taken, after)) : taken ++ after = text := by
  fun_induction commentEnd? text generalizing taken after with
  | case1 => simp at found
  | case2 rest =>
    simp only [Option.some.injEq, Prod.mk.injEq] at found
    simp [← found.1, ← found.2]
  | case3 c rest _ ih =>
    obtain ⟨⟨inner, left⟩, deeper, same⟩ := Option.map_eq_some_iff.mp found
    simp only [Prod.mk.injEq] at same
    rw [← same.1, ← same.2, List.cons_append, ih deeper]

/-- A block comment and what is left make up the text, whether the comment is closed or not. -/
theorem blockComment_lexeme (rest : List Char) :
    (blockComment rest).lexeme ++ (blockComment rest).rest = '/' :: '*' :: rest := by
  fun_cases blockComment rest with
  | case1 taken after found => simp [commentEnd?_taken found]
  | case2 => simp

/-- A quoted text and what is left make up the text. -/
theorem quoted_lexeme (rest : List Char) :
    (quoted rest).lexeme ++ (quoted rest).rest = '"' :: rest := by
  simp [quoted, Literal.Quoted.scan_text]

/-- A word and what is left make up the text. -/
theorem word_lexeme (c : Char) (rest : List Char) :
    (word c rest).lexeme ++ (word c rest).rest = c :: rest := by
  simp [word, List.takeWhile_append_dropWhile]

/-- A number takes characters from the left, one at a time, and loses none. -/
theorem numberTail_append (last : Char) (dotted hexadecimal : Bool) (text : List Char) :
    (numberTail last dotted hexadecimal text).1 ++ (numberTail last dotted hexadecimal text).2
      = text := by
  fun_induction numberTail last dotted hexadecimal text <;> simp_all

/-- A number and what is left make up the text. -/
theorem number_lexeme (c : Char) (rest : List Char) :
    (number c rest).lexeme ++ (number c rest).rest = c :: rest := by
  simp [number, numberTail_append]

/-- A reading loses nothing. -/
theorem read_lexeme (c : Char) (rest : List Char) :
    (read c rest).lexeme ++ (read c rest).rest = c :: rest := by
  fun_cases read c rest with
  | case1 => rfl
  | case2 _ slash =>
    subst slash
    exact run_lexeme _ _ _ _
  | case3 _ slash after => exact slash ▸ blockComment_lexeme after
  | case4 => rfl
  | case5 _ _ _ quote => exact quote ▸ quoted_lexeme rest
  | case6 => exact run_lexeme _ _ _ _
  | case7 => exact word_lexeme c rest
  | case8 => exact number_lexeme c rest
  | case9 => rfl

/-- A reading takes at least the first character. -/
theorem read_lexeme_ne_nil (c : Char) (rest : List Char) : (read c rest).lexeme ≠ [] := by
  fun_cases read c rest with
  | case3 _ _ after =>
    unfold blockComment
    split
    · exact List.cons_ne_nil _ _
    · exact List.cons_ne_nil _ _
  | _ => exact List.cons_ne_nil _ _

/-- A reading leaves less than it was given. -/
theorem read_rest_length (c : Char) (rest : List Char) :
    (read c rest).rest.length < rest.length + 1 := by
  have whole := congrArg List.length (read_lexeme c rest)
  have taken := List.length_pos_iff.mpr (read_lexeme_ne_nil c rest)
  simp only [List.length_append, List.length_cons] at whole
  omega

end Reading

end MessageSchema
