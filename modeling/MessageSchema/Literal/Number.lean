/-!
# Number literals

A literal is an optional minus sign and then either `0x` with hexadecimal
digits or decimal digits with an optional fraction and an optional exponent.
Underscores may separate digits, one at a time and never at an end. A literal
with neither fraction nor exponent is an integer and has a value.

The text is cut into its parts first, whatever they hold, and the parts are
judged afterwards: the cut depends on `0x`, the first `e` and the first dot only.
-/

namespace MessageSchema.Literal.Number

/-- What a literal can stand for. -/
inductive Form where
  | integer
  | float
deriving DecidableEq

/-- The value of a digit in a base of at most sixteen; letters count in both cases. -/
def digit? (radix : Nat) (c : Char) : Option Nat :=
  let value :=
    if c.isDigit then c.toNat - '0'.toNat
    else if 'a' ≤ c && c ≤ 'f' then c.toNat - 'a'.toNat + 10
    else if 'A' ≤ c && c ≤ 'F' then c.toNat - 'A'.toNat + 10
    else 16
  if value < radix then some value else none

/-- Whether a character is a digit of the base. -/
def isDigit (radix : Nat) (c : Char) : Bool :=
  (digit? radix c).isSome

/-- Digits, any two of which may have one underscore between them. -/
def isGrouped (radix : Nat) : List Char → Bool
  | [] => false
  | [c] => isDigit radix c
  | c :: '_' :: rest => isDigit radix c && isGrouped radix rest
  | c :: rest => isDigit radix c && isGrouped radix rest

/-- The number that digits denote in a base; what is no digit is passed over. -/
def value (radix : Nat) (digits : List Char) : Nat :=
  (digits.filterMap (digit? radix)).foldl (fun sum digit => sum * radix + digit) 0

/-- What stands before the first character with property `p`, and what follows
that character, if there is one. -/
def cutAt (p : Char → Bool) : List Char → List Char × Option (List Char)
  | [] => ([], none)
  | c :: rest =>
    if p c then ([], some rest)
    else
      let (before, after) := cutAt p rest
      (c :: before, after)

/-- A literal without its sign, cut into parts. -/
inductive Parts where
  | hexadecimal (digits : List Char)
  | decimal (integral : List Char) (fraction exponent : Option (List Char))
deriving DecidableEq

/-- Whether a character introduces an exponent. -/
def isExponentMark (c : Char) : Bool :=
  c == 'e' || c == 'E'

/-- An exponent without its sign. -/
def unsignedExponent : List Char → List Char
  | '+' :: digits => digits
  | '-' :: digits => digits
  | digits => digits

namespace Parts

/-- The parts of an unsigned text. -/
def ofUnsigned : List Char → Parts
  | '0' :: 'x' :: digits => .hexadecimal digits
  | '0' :: 'X' :: digits => .hexadecimal digits
  | text =>
    let (mantissa, exponent) := cutAt isExponentMark text
    let (integral, fraction) := cutAt (· == '.') mantissa
    .decimal integral fraction exponent

/-- Whether every part that is there has its digits. -/
def wellFormed : Parts → Bool
  | .hexadecimal digits => isGrouped 16 digits
  | .decimal integral fraction exponent =>
    isGrouped 10 integral && fraction.all (isGrouped 10)
      && exponent.all (isGrouped 10 <| unsignedExponent ·)

/-- A fraction or an exponent makes a literal a float. -/
def form : Parts → Form
  | .hexadecimal _ => .integer
  | .decimal _ none none => .integer
  | .decimal _ _ _ => .float

/-- The number that the digits of an integer denote. -/
def magnitude? : Parts → Option Nat
  | .hexadecimal digits => some (value 16 digits)
  | .decimal digits none none => some (value 10 digits)
  | .decimal _ _ _ => none

end Parts

/-- A text as its sign and its parts. -/
def split : List Char → Bool × Parts
  | '-' :: unsigned => (true, Parts.ofUnsigned unsigned)
  | unsigned => (false, Parts.ofUnsigned unsigned)

/-- What a text stands for, if it is a number literal. -/
def form? (text : List Char) : Option Form :=
  let parts := (split text).2
  if parts.wellFormed then some parts.form else none

/-- The greatest magnitude an integer literal may have. -/
def greatestMagnitude : Nat := Nat.pow 2 127 - 1

/-- The value of an integer literal whose magnitude is not too great. -/
def integer? (text : List Char) : Option Int :=
  let (negative, parts) := split text
  if parts.wellFormed then
    match parts.magnitude? with
    | some magnitude =>
      if magnitude ≤ greatestMagnitude then
        some (if negative then -(magnitude : Int) else (magnitude : Int))
      else none
    | none => none
  else none

/-- The value of an integer literal within bounds, the upper one excluded. -/
def integerWithin? (least bound : Int) (text : List Char) : Option Int :=
  (integer? text).filter fun value => least ≤ value && value < bound

end MessageSchema.Literal.Number
