import MessageSchema.Literal.Number

/-!
# Quoted text

A quoted text runs to the next quote on the same line. Inside it a backslash
introduces an escape. `scan` cuts the text into pieces, good and bad alike, so
that a reader always comes to the end; `decode` gives the text that a literal
stands for and keeps an escape that it does not understand as it is written.

The two follow different rules for `\u`: `scan` wants one to six hexadecimal
digits, `decode` takes everything up to the closing brace as a hexadecimal
number.
-/

namespace MessageSchema.Literal.Quoted

/-- The character with the number `n`, if `n` is a scalar value. -/
def scalar? (n : Nat) : Option Char :=
  if n.isValidChar then some (Char.ofNat n) else none

/-- The character that a backslash and one letter stand for. -/
def letterEscape? : Char → Option Char
  | '"' => some '"'
  | '\\' => some '\\'
  | '\'' => some '\''
  | 'n' => some '\n'
  | 'r' => some '\r'
  | 't' => some '\t'
  | '0' => some '\x00'
  | _ => none

/-- What a quoted text is made of. -/
inductive Piece where
  /-- A character that stands for itself. -/
  | plain (character : Char)
  /-- A backslash and a letter that has a meaning behind it. -/
  | letter (escape : Char)
  /-- A `\u` with hexadecimal digits in braces. -/
  | scalar (digits : List Char)
  /-- A backslash with what was read of an escape that is none. -/
  | broken (escape : List Char)
deriving DecidableEq

namespace Piece

/-- A piece as it is written. -/
def text : Piece → List Char
  | .plain c => [c]
  | .letter c => ['\\', c]
  | .scalar digits => '\\' :: 'u' :: '\x7b' :: digits ++ ['\x7d']
  | .broken escape => '\\' :: escape

/-- The character that a piece stands for, if it is well formed. -/
def meaning? : Piece → Option Char
  | .plain c => some c
  | .letter c => letterEscape? c
  | .scalar digits =>
    if 1 ≤ digits.length && digits.length ≤ 6 then scalar? (Number.value 16 digits) else none
  | .broken _ => none

/-- Whether a piece is an escape that is refused. -/
def isBad (piece : Piece) : Bool :=
  piece.meaning?.isNone

end Piece

/-- The escape behind a backslash, and what follows it. A newline and the end of
the text are left alone. -/
def escape : List Char → Piece × List Char
  | [] => (.broken [], [])
  | '\n' :: rest => (.broken [], '\n' :: rest)
  | 'u' :: '\x7b' :: rest =>
    let digits := rest.takeWhile (Number.isDigit 16)
    match rest.dropWhile (Number.isDigit 16) with
    | '\x7d' :: after => (.scalar digits, after)
    | after => (.broken ('u' :: '\x7b' :: digits), after)
  | c :: rest => if (letterEscape? c).isSome then (.letter c, rest) else (.broken [c], rest)

/-- An escape is written as the backslash and what was taken. -/
theorem escape_text (text : List Char) :
    (escape text).1.text ++ (escape text).2 = '\\' :: text := by
  fun_cases escape text with
  | case1 => rfl
  | case2 => rfl
  | case3 rest digits after found =>
    have whole := List.takeWhile_append_dropWhile (p := Number.isDigit 16) (l := rest)
    rw [found] at whole
    simp [Piece.text, digits, whole]
  | case4 rest digits _ =>
    simp [Piece.text, digits, List.takeWhile_append_dropWhile]
  | case5 c rest => rfl
  | case6 c rest => rfl

/-- An escape takes nothing that was not there. The cases are those of the characters that can
follow a backslash; only an escape by number looks further ahead. -/
theorem escape_rest_length (text : List Char) : (escape text).2.length ≤ text.length := by
  have whole := congrArg List.length (escape_text text)
  have taken : 1 ≤ (escape text).1.text.length := by
    cases (escape text).1 <;> simp [Piece.text]
  simp only [List.length_append, List.length_cons] at whole
  omega

/-- The inside of a quoted text: its pieces, whether a quote ends it, and what
follows, the closing quote being taken. -/
structure Scan where
  pieces : List Piece
  closed : Bool
  rest : List Char

/-- A scan with one more piece in front. -/
def Scan.prepend (piece : Piece) (scan : Scan) : Scan :=
  { scan with pieces := piece :: scan.pieces }

/-- The pieces of the text behind an opening quote. -/
def scan : List Char → Scan
  | [] => ⟨[], false, []⟩
  | '"' :: rest => ⟨[], true, rest⟩
  | '\n' :: rest => ⟨[], false, '\n' :: rest⟩
  | '\\' :: rest =>
    have := escape_rest_length rest
    (scan (escape rest).2).prepend (escape rest).1
  | c :: rest => (scan rest).prepend (.plain c)
termination_by text => text.length

namespace Scan

/-- The text that was taken, without the opening quote. -/
def text (s : Scan) : List Char :=
  s.pieces.flatMap Piece.text ++ bif s.closed then ['"'] else []

/-- A piece in front comes first in the text. -/
theorem text_prepend (piece : Piece) (s : Scan) : (s.prepend piece).text = piece.text ++ s.text := by
  simp [text, prepend]

/-- A piece in front does not change what is left behind the literal. -/
theorem rest_prepend (piece : Piece) (s : Scan) : (s.prepend piece).rest = s.rest := rfl

/-- The first escape that is refused, as it is written. -/
def firstBad? (s : Scan) : Option (List Char) :=
  (s.pieces.find? Piece.isBad).map Piece.text

end Scan

/-- A scan loses nothing: what it took and what it left are the text. -/
theorem scan_text (text : List Char) : (scan text).text ++ (scan text).rest = text := by
  fun_induction scan text with
  | case1 => rfl
  | case2 rest => rfl
  | case3 rest => rfl
  | case4 rest _ ih =>
    rw [Scan.text_prepend, Scan.rest_prepend, List.append_assoc, ih, escape_text]
  | case5 c rest _ _ _ ih =>
    rw [Scan.text_prepend, Scan.rest_prepend, List.append_assoc, ih]
    rfl

/-- The number that hexadecimal digits denote; one plus sign may stand before them. -/
def hexadecimal? (text : List Char) : Option Nat :=
  let digits :=
    match text with
    | '+' :: rest => rest
    | _ => text
  if !digits.isEmpty && digits.all (Number.isDigit 16) then some (Number.value 16 digits) else none

/-- What follows the next closing brace; nothing when there is none. -/
def afterBrace (text : List Char) : List Char :=
  (text.dropWhile (· != '\x7d')).drop 1

/-- What stands behind a closing brace is no longer than the text. -/
theorem afterBrace_length (text : List Char) : (afterBrace text).length ≤ text.length := by
  have shorter := (List.dropWhile_sublist (l := text) (· != '\x7d')).length_le
  simp only [afterBrace, List.length_drop]
  omega

/-- The text inside the quotes with every escape replaced by its character. An
escape that stands for none is kept, a `\u` one with a closing brace. -/
def decodeInside : List Char → List Char
  | [] => []
  | ['\\'] => ['\\']
  | '\\' :: 'u' :: '\x7b' :: rest =>
    let digits := rest.takeWhile (· != '\x7d')
    have := afterBrace_length rest
    match (hexadecimal? digits).bind scalar? with
    | some c => c :: decodeInside (afterBrace rest)
    | none => '\\' :: 'u' :: '\x7b' :: digits ++ '\x7d' :: decodeInside (afterBrace rest)
  | '\\' :: c :: rest =>
    match letterEscape? c with
    | some meaning => meaning :: decodeInside rest
    | none => '\\' :: c :: decodeInside rest
  | c :: rest => c :: decodeInside rest
termination_by text => text.length
decreasing_by
  all_goals simp only [List.length_cons]
  all_goals omega

/-- A text without one quote at its beginning, if there is one. -/
def dropOpening : List Char → List Char
  | '"' :: rest => rest
  | text => text

/-- A text without one quote at its end, if there is one. -/
def dropClosing (text : List Char) : List Char :=
  if text.getLast? = some '"' then text.dropLast else text

/-- The text that a literal stands for. Quotes at its ends are dropped if they are there. -/
def decode (literal : List Char) : List Char :=
  decodeInside (dropClosing (dropOpening literal))

end MessageSchema.Literal.Quoted
