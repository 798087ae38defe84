import MessageSchema.Data.Basic
import MessageSchema.Data.Json
import MessageSchema.Literal.Binary64
import MessageSchema.Literal.Number

/-!
# Data as YAML text

The layout is the block style. The fields of a record stand below each other; a
record below a field is indented by two blanks, a list below a field is not, and
each item of a list begins with a dash. A tag stands where the value begins.

A text is written plainly where a reader will take it for the same text. It is
put between single quotes where it would be taken for something else or has a
break other than the newline, below a bar where it has newlines, and between
double quotes where it has characters that cannot be shown or blanks that would
be lost. Within quotes and below a bar the breaks of a text end lines of the
output, and what follows them is indented like everything else.
-/

namespace MessageSchema.Data.Yaml

/-! ## Texts -/

/-- The characters that can be shown and end a line. -/
def isBreak (c : Char) : Bool :=
  c == '\n' || c == '\u2028' || c == '\u2029'

/-- Whether a character can be shown. -/
def isPrintable (c : Char) : Bool :=
  c == '\n' || (0x20 ≤ c.toNat && c.toNat ≤ 0x7E)
    || (0xA0 ≤ c.toNat && c.toNat ≠ 0xFEFF && c.toNat ≠ 0xFFFE && c.toNat ≠ 0xFFFF)

/-- The blank, the tab, the zero character and the line breaks. -/
def isSeparator (c : Char) : Bool :=
  c == ' ' || c == '\t' || c == '\x00' || c == '\n' || c == '\r' || c == '\u0085'
    || c == '\u2028' || c == '\u2029'

/-- Whether a text is over here, or a separator follows. -/
def endsWord : List Char → Bool
  | [] => true
  | c :: _ => isSeparator c

/-- The words that stand for a value other than a text. -/
def reservedWords : List String :=
  ["null", "Null", "NULL", "~", "true", "True", "TRUE", "false", "False", "FALSE",
   ".inf", ".Inf", ".INF", "+.inf", "+.Inf", "+.INF", "-.inf", "-.Inf", "-.INF",
   ".nan", ".NaN", ".NAN"]

/-- A text without one sign in front, and whether that is a minus. -/
def unsigned : List Char → Bool × List Char
  | '+' :: rest => (false, rest)
  | '-' :: rest => (true, rest)
  | plain => (false, plain)

/-- Digits of a base, at least one. -/
def isDigits (radix : Nat) (text : List Char) : Bool :=
  !text.isEmpty && text.all (Literal.Number.isDigit radix)

/-- The number of digits of a base, if they are nothing else. -/
def digitsValue? (radix : Nat) (digits : List Char) : Option Nat :=
  if isDigits radix digits then some (Literal.Number.value radix digits) else none

/-- The number of a text that names its base. -/
def basedValue? : List Char → Option Nat
  | '0' :: 'x' :: digits => digitsValue? 16 digits
  | '0' :: 'o' :: digits => digitsValue? 8 digits
  | '0' :: 'b' :: digits => digitsValue? 2 digits
  | _ => none

/-- Whether a text that names its base would be read as an integer: only what 128
bits can hold is, and a minus takes one of them. -/
def isBasedInteger (text : List Char) : Bool :=
  match unsigned text with
  | (false, digits) => (basedValue? digits).any (· < Nat.pow 2 128)
  | (true, digits) => (basedValue? digits).any (· ≤ Nat.pow 2 127)

/-- Whether a text is digits with a zero in front. They are no number, but readers
disagree about that. -/
def isZeroLed (text : List Char) : Bool :=
  match (unsigned text).2 with
  | '0' :: digits => isDigits 10 digits
  | _ => false

/-- The significand of a text of digits with an optional point, and the number of
digits behind the point. -/
def significand? (text : List Char) : Option (Nat × Nat) :=
  let (integral, fraction) := Literal.Number.cutAt (· == '.') text
  (digitsValue? 10 (integral ++ fraction.getD [])).map (·, (fraction.getD []).length)

/-- The number of an exponent's digits. An exponent of more than 65536 has left
every range, and counting stops there. -/
def exponentDigits (digits : List Char) : Nat :=
  digits.foldl
    (fun sum c => if sum < 0x10000 then sum * 10 + Literal.Number.value 10 [c] else sum) 0

/-- The number of an exponent; where there is none it is zero. -/
def exponent? : Option (List Char) → Option Int
  | none => some 0
  | some signed =>
    let (negative, digits) := unsigned signed
    if !isDigits 10 digits then none
    else if negative then some (-(exponentDigits digits : Int))
    else some (exponentDigits digits)

/-- Whether a text would be read as a decimal number: its value is in range. -/
def isDecimal (text : List Char) : Bool :=
  let (mantissa, power) :=
    Literal.Number.cutAt Literal.Number.isExponentMark (unsigned text).2
  match significand? mantissa, exponent? power with
  | some (significand, places), some exponent =>
    Literal.Binary64.inRange significand (exponent - places)
  | _, _ => false

/-- Whether a text would be read, at least by some, as a value other than a text. -/
def isTaken (text : List Char) : Bool :=
  reservedWords.contains (String.ofList text) || isBasedInteger text || isZeroLed text
    || isDecimal text

/-- The characters with which no plain text can begin. -/
def isIndicator (c : Char) : Bool :=
  "#,[]\x7b\x7d&*!|>'\"%@`".toList.contains c

/-- Whether the beginning of a text has a meaning of its own. -/
def startsSpecially : List Char → Bool
  | [] => false
  | c :: rest =>
    isIndicator c || ((c == '?' || c == ':' || c == '-') && endsWord rest)
      || ['-', '-', '-'].isPrefixOf (c :: rest) || ['.', '.', '.'].isPrefixOf (c :: rest)

/-- Whether a text has a colon that would end a key, or a number sign that would
begin a comment. -/
def hasMarkInside : List Char → Bool
  | [] => false
  | c :: rest =>
    (c == ':' && endsWord rest) || (isSeparator c && rest.head? == some '#') || hasMarkInside rest

/-- Whether two characters with the given properties stand side by side. -/
def hasPair (p q : Char → Bool) : List Char → Bool
  | first :: second :: rest => p first && q second || hasPair p q (second :: rest)
  | _ => false

/-- Whether a blank stands right before a break, where it would be lost. -/
def hasBlankBeforeBreak (text : List Char) : Bool :=
  hasPair (· == ' ') isBreak text

/-- Whether a blank stands right behind a break, where it would be lost in an
indentation. -/
def hasBlankAfterBreak (text : List Char) : Bool :=
  hasPair isBreak (· == ' ') text

/-- Whether a text that can be shown has to stand between quotes. -/
def needsQuotes (text : List Char) : Bool :=
  isTaken text || startsSpecially text || hasMarkInside text || text.any isBreak
    || text.head? == some ' ' || text.getLast? == some ' '

/-- Whether a text can stand between single quotes. -/
def allowsSingleQuotes (text : List Char) : Bool :=
  text.all isPrintable && !hasBlankBeforeBreak text && !hasBlankAfterBreak text

/-- Whether a text can stand below a bar. -/
def allowsBar (text : List Char) : Bool :=
  text.all isPrintable && !hasBlankBeforeBreak text && text.getLast? != some ' '

/-- The last hexadecimal digits of a number, in upper case. -/
def hexadecimal (width n : Nat) : List Char :=
  (Json.hexadecimal width n).map Char.toUpper

/-- A character between double quotes. -/
def doubleQuotedChar (c : Char) : List Char :=
  if isPrintable c && !isBreak c && c != '"' && c != '\\' then [c]
  else
    '\\' ::
      match c with
      | '\x00' => ['0']
      | '\x07' => ['a']
      | '\x08' => ['b']
      | '\t' => ['t']
      | '\n' => ['n']
      | '\x0b' => ['v']
      | '\x0c' => ['f']
      | '\r' => ['r']
      | '\x1b' => ['e']
      | '"' => ['"']
      | '\\' => ['\\']
      | '\u0085' => ['N']
      | '\u2028' => ['L']
      | '\u2029' => ['P']
      | _ =>
        if c.toNat ≤ 0xFF then 'x' :: hexadecimal 2 c.toNat
        else if c.toNat ≤ 0xFFFF then 'u' :: hexadecimal 4 c.toNat
        else 'U' :: hexadecimal 8 c.toNat

/-- A text between single quotes. A quote inside is written twice. -/
def singleQuoted (text : List Char) : List Char :=
  '\'' :: text.flatMap (fun c => if c = '\'' then ['\'', '\''] else [c]) ++ ['\'']

/-- A text between double quotes. -/
def doubleQuoted (text : List Char) : List Char :=
  '"' :: text.flatMap doubleQuotedChar ++ ['"']

/-- What a bar says about the beginning of the text below it: where blanks or
breaks come first, how far the text is indented. -/
def indentationHint (text : List Char) : List Char :=
  if text.head?.any (fun c => c == ' ' || isBreak c) then ['2'] else []

/-- What a bar says about the end of the text below it: that the last line has no
break, or that further breaks follow it. -/
def endingHint (text : List Char) : List Char :=
  match text.reverse with
  | last :: before =>
    if !isBreak last then ['-'] else if before.head?.all isBreak then ['+'] else []
  | [] => ['-']

/-- A text below a bar. -/
def barred (text : List Char) : List Char :=
  '|' :: indentationHint text ++ endingHint text ++ '\n' :: text

/-- A text in the plainest form that is read back as the same text. -/
def scalar (s : String) : List Char :=
  let text := s.toList
  if text.contains '\n' then if allowsBar text then barred text else doubleQuoted text
  else if !allowsSingleQuotes text then doubleQuoted text
  else if text.isEmpty || needsQuotes text then singleQuoted text
  else text

/-! ## Lines -/

/-- A line of the output and the break that ends it. -/
structure Line where
  text : List Char
  ending : Char

namespace Line

/-- A line indented by one level. An empty line is not. -/
def indent (line : Line) : Line :=
  if line.text.isEmpty then line else { line with text := ' ' :: ' ' :: line.text }

end Line

/-- The lines of what is left, given what was already read of the first one, last
character first. A last line without break is ended by a newline. -/
def linesFrom (read : List Char) : List Char → List Line
  | [] => if read.isEmpty then [] else [⟨read.reverse, '\n'⟩]
  | c :: rest =>
    if isBreak c then ⟨read.reverse, c⟩ :: linesFrom [] rest else linesFrom (c :: read) rest

/-- The lines of a written text. -/
def linesOf (written : List Char) : List Line :=
  linesFrom [] written

/-- Lines of which all but the first are indented. -/
def hanging : List Line → List Line
  | [] => []
  | first :: rest => first :: rest.map Line.indent

/-! ## Values -/

/-- How a value stands behind its key or dash: on the same line, or in lines
below it. A value that begins below is either indented or, like a list, not. -/
inductive Block where
  | inline (written : List Char)
  | below (indented : Bool) (lines : List Line)
  | tagged (tag : String) (inner : List Line)

/-- The lines of a value in a list: its first line behind the dash. -/
def dashed : List Line → List Line
  | [] => []
  | first :: rest => hanging ({ first with text := '-' :: ' ' :: first.text } :: rest)

namespace Block

/-- A tag as it is written. -/
def writtenTag (tag : String) : List Char :=
  '!' :: tag.toList

/-- The lines of a value that stands by itself. -/
def lines : Block → List Line
  | .inline written => linesOf written
  | .below _ lines => lines
  | .tagged tag inner => ⟨writtenTag tag, '\n'⟩ :: inner.map Line.indent

/-- The lines of a value behind a key. -/
def behindKey (key : String) : Block → List Line
  | .inline written => hanging (linesOf (scalar key ++ ':' :: ' ' :: written))
  | .below true lines => ⟨scalar key ++ [':'], '\n'⟩ :: lines.map Line.indent
  | .below false lines => ⟨scalar key ++ [':'], '\n'⟩ :: lines
  | .tagged tag inner =>
    ⟨scalar key ++ ':' :: ' ' :: writtenTag tag, '\n'⟩ :: inner.map Line.indent

/-- A value with a tag in front. -/
def withTag (tag : String) : Block → Block
  | .inline written => .inline (writtenTag tag ++ ' ' :: written)
  | block => .tagged tag block.lines

end Block

mutual

/-- A value as a block. -/
def block : Data → Block
  | .null => .inline "null".toList
  | .bool true => .inline "true".toList
  | .bool false => .inline "false".toList
  | .int value => .inline (toString value).toList
  | .text value => .inline (scalar value)
  | .list [] => .inline "[]".toList
  | .list (first :: rest) => .below false (dashed (block first).lines ++ itemLines rest)
  | .record [] => .inline "\x7b\x7d".toList
  | .record ((key, first) :: rest) =>
    .below true ((block first).behindKey key ++ fieldLines rest)
  | .tagged tag content => (block content).withTag tag

/-- The lines of the items of a list. -/
def itemLines : List Data → List Line
  | [] => []
  | item :: rest => dashed (block item).lines ++ itemLines rest

/-- The lines of the fields of a record. -/
def fieldLines : List (String × Data) → List Line
  | [] => []
  | (key, value) :: rest => (block value).behindKey key ++ fieldLines rest

end

end Yaml

/-- Data as YAML text. -/
def toYaml (data : Data) : String :=
  String.ofList ((Yaml.block data).lines.flatMap fun line => line.text ++ [line.ending])

end MessageSchema.Data
