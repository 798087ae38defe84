import MessageSchema.Literal.Binary64
import MessageSchema.Literal.Number

/-!
# Reading JSON text

The pieces of a strict reader: texts, numbers and literals, the steps through a
list or an object, and passing over a value that nobody asked for. Reading goes
from left to right and stops at the first fault; a fault says whether the text
ended too early, is no JSON, or is JSON of another shape than asked for.

A value that is passed over is held to the grammar only. A value that is read is
held to more: its surrogates come in pairs and its numbers are finite.
-/

namespace MessageSchema.JsonReader

/-- Why reading stopped. -/
inductive Fault where
  /-- The text ended too early. -/
  | ended
  /-- The text is no JSON. -/
  | malformed
  /-- The text has a value of another shape than asked for. -/
  | unsuitable
deriving DecidableEq

/-- What a reader gives: a fault, or a value and the text behind it. -/
abbrev Outcome (α : Type) := Except Fault (α × List Char)

/-- The four characters that may stand between values. -/
def isBlank (c : Char) : Bool :=
  c == ' ' || c == '\t' || c == '\n' || c == '\r'

/-- The text behind the blanks. -/
def skipBlanks (text : List Char) : List Char :=
  text.dropWhile isBlank

/-- Passing blanks adds nothing. -/
theorem skipBlanks_length (text : List Char) : (skipBlanks text).length ≤ text.length :=
  (List.dropWhile_suffix _).length_le

/-! ## Texts -/

/-- The number of four hexadecimal digits. A rest of fewer than four bytes has
ended too early, whatever it holds. -/
def hexadecimal4 (text : List Char) : Outcome Nat :=
  match text with
  | a :: b :: c :: d :: rest =>
    if [a, b, c, d].all (Literal.Number.isDigit 16) then
      .ok (Literal.Number.value 16 [a, b, c, d], rest)
    else .error .malformed
  | short => .error (if (String.ofList short).utf8ByteSize < 4 then .ended else .malformed)

/-- Whether a number is the first half of a pair of surrogates. -/
def isLeading (n : Nat) : Bool :=
  0xD800 ≤ n && n ≤ 0xDBFF

/-- Whether a number is the second half of a pair of surrogates. -/
def isTrailing (n : Nat) : Bool :=
  0xDC00 ≤ n && n ≤ 0xDFFF

/-- The character of a pair of surrogates. -/
def ofPair (leading trailing : Nat) : Char :=
  Char.ofNat ((leading - 0xD800) * 0x400 + (trailing - 0xDC00) + 0x10000)

/-- The second half of a pair behind its first half. -/
def trailingHalf (leading : Nat) : List Char → Outcome Char
  | [] => .error .ended
  | ['\\'] => .error .ended
  | '\\' :: 'u' :: text =>
    match hexadecimal4 text with
    | .ok (n, rest) => if isTrailing n then .ok (ofPair leading n, rest) else .error .malformed
    | .error fault => .error fault
  | _ => .error .malformed

/-- The character of a `\u` escape. -/
def unicodeEscape (text : List Char) : Outcome Char :=
  match hexadecimal4 text with
  | .ok (n, rest) =>
    if isTrailing n then .error .malformed
    else if isLeading n then trailingHalf n rest
    else .ok (Char.ofNat n, rest)
  | .error fault => .error fault

/-- A `\u` escape that is passed over; half a pair is let through. -/
def looseUnicodeEscape (text : List Char) : Outcome Char :=
  match hexadecimal4 text with
  | .ok (n, rest) => .ok (Char.ofNat n, rest)
  | .error fault => .error fault

/-- The character of an escape behind its backslash. -/
def escape (strict : Bool) : List Char → Outcome Char
  | [] => .error .ended
  | '"' :: rest => .ok ('"', rest)
  | '\\' :: rest => .ok ('\\', rest)
  | '/' :: rest => .ok ('/', rest)
  | 'b' :: rest => .ok ('\x08', rest)
  | 'f' :: rest => .ok ('\x0c', rest)
  | 'n' :: rest => .ok ('\n', rest)
  | 'r' :: rest => .ok ('\r', rest)
  | 't' :: rest => .ok ('\t', rest)
  | 'u' :: rest => if strict then unicodeEscape rest else looseUnicodeEscape rest
  | _ => .error .malformed

/-- Four digits are taken. -/
theorem hexadecimal4_length {text rest : List Char} {n : Nat}
    (read : hexadecimal4 text = .ok (n, rest)) : rest.length < text.length := by
  unfold hexadecimal4 at read
  grind

/-- The second half of a pair takes its sign and four digits. -/
theorem trailingHalf_length {text rest : List Char} {leading : Nat} {c : Char}
    (read : trailingHalf leading text = .ok (c, rest)) : rest.length < text.length := by
  unfold trailingHalf at read
  grind [→ hexadecimal4_length]

/-- An escape by number takes four digits, or eight with the sign between them. -/
theorem unicodeEscape_length {text rest : List Char} {c : Char}
    (read : unicodeEscape text = .ok (c, rest)) : rest.length < text.length := by
  unfold unicodeEscape at read
  grind [→ hexadecimal4_length, → trailingHalf_length]

/-- So it does where halves may stand alone. -/
theorem looseUnicodeEscape_length {text rest : List Char} {c : Char}
    (read : looseUnicodeEscape text = .ok (c, rest)) : rest.length < text.length := by
  unfold looseUnicodeEscape at read
  grind [→ hexadecimal4_length]

/-- An escape takes at least the character that names it. -/
theorem escape_length {strict : Bool} {text rest : List Char} {c : Char}
    (read : escape strict text = .ok (c, rest)) : rest.length < text.length := by
  unfold escape at read
  grind [→ unicodeEscape_length, → looseUnicodeEscape_length]

/-- The characters of a text behind its opening quote. -/
def string (strict : Bool) : List Char → Outcome (List Char)
  | [] => .error .ended
  | '"' :: rest => .ok ([], rest)
  | '\\' :: rest =>
    match read : escape strict rest with
    | .ok (c, after) =>
      have := escape_length read
      match string strict after with
      | .ok (more, left) => .ok (c :: more, left)
      | .error fault => .error fault
    | .error fault => .error fault
  | c :: rest =>
    if c.toNat < 0x20 then .error .malformed
    else
      match string strict rest with
      | .ok (more, left) => .ok (c :: more, left)
      | .error fault => .error fault
termination_by text => text.length

/-! ## Literals and numbers -/

/-- The text behind a word that must stand here. -/
def word : List Char → List Char → Except Fault (List Char)
  | [], rest => .ok rest
  | _ :: _, [] => .error .ended
  | expected :: more, c :: rest => if c = expected then word more rest else .error .malformed

/-- A significand with the digits behind it, as long as 64 bits can hold it, and
how many of them it took. -/
def extend (significand : Nat) : List Char → Nat × Nat
  | [] => (significand, 0)
  | c :: rest =>
    let longer := significand * 10 + Literal.Number.value 10 [c]
    if longer < Nat.pow 2 64 then
      let (whole, taken) := extend longer rest
      (whole, taken + 1)
    else (significand, 0)

/-- Whether a number that is read is too great. Its digits before and behind the
point give a significand of 64 bits, and those that it cannot take count for
their place only. The significand and the power of ten are rounded, and their
product is rounded again. -/
def isOutOfRange (whole part : List Char) (power : Int) : Bool :=
  let (high, taken) := extend 0 whole
  let (significand, takenBehind) := extend high part
  match power + (whole.length - taken : Nat) - takenBehind with
  | .ofNat up =>
    significand != 0 && (Literal.Binary64.maxPower < up
      || !Literal.Binary64.productInRange significand (Nat.pow 10 up))
  | .negSucc _ => false

/-- One or more digits. A number that breaks off is malformed, or has ended too
early if it is read and nothing follows. -/
def digits (strict : Bool) (text : List Char) : Outcome (List Char) :=
  let taken := text.takeWhile Char.isDigit
  if taken.isEmpty then
    .error (if strict && text.isEmpty then .ended else .malformed)
  else .ok (taken, text.dropWhile Char.isDigit)

/-- The integral digits of a number: a zero is followed by no digit. -/
def integral (strict : Bool) (text : List Char) : Outcome (List Char) :=
  match digits strict text with
  | .ok ('0' :: _ :: _, _) => .error .malformed
  | outcome => outcome

/-- The optional digits behind a point. -/
def fraction (strict : Bool) : List Char → Outcome (List Char)
  | '.' :: rest => digits strict rest
  | text => .ok ([], text)

/-- The digits of an exponent as a number. -/
def exponentDigits (strict negative : Bool) (text : List Char) : Outcome Int :=
  match digits strict text with
  | .ok (taken, rest) =>
    let n : Int := Literal.Number.value 10 taken
    .ok (if negative then -n else n, rest)
  | .error fault => .error fault

/-- The optional exponent of a number. -/
def exponent (strict : Bool) : List Char → Outcome Int
  | c :: rest =>
    if Literal.Number.isExponentMark c then
      match rest with
      | '-' :: after => exponentDigits strict true after
      | '+' :: after => exponentDigits strict false after
      | after => exponentDigits strict false after
    else .ok (0, c :: rest)
  | [] => .ok (0, [])

/-- The text behind a number without sign. -/
def number (strict : Bool) (text : List Char) : Except Fault (List Char) := do
  let (whole, afterWhole) ← integral strict text
  let (part, afterPart) ← fraction strict afterWhole
  let (power, rest) ← exponent strict afterPart
  if strict && isOutOfRange whole part power then .error .malformed
  else .ok rest

/-- The text behind a text, number or literal. -/
def scalar (strict : Bool) : List Char → Except Fault (List Char)
  | '"' :: rest => (string strict rest).map (·.2)
  | '-' :: rest => number strict rest
  | 'n' :: rest => word "ull".toList rest
  | 't' :: rest => word "rue".toList rest
  | 'f' :: rest => word "alse".toList rest
  | c :: rest => if c.isDigit then number strict (c :: rest) else .error .malformed
  | [] => .error .ended

/-! ## Lists and objects -/

/-- A step through a list or an object. -/
inductive Step where
  /-- It is closed, and this follows. -/
  | closed (rest : List Char)
  /-- It goes on with the item that begins here. -/
  | item (text : List Char)

/-- The step behind an opening mark, if `first`, or else behind an item. -/
def step (close : Char) (first : Bool) (text : List Char) : Except Fault Step :=
  match skipBlanks text with
  | [] => .error .ended
  | c :: rest =>
    if c = close then .ok (.closed rest)
    else if first then .ok (.item (c :: rest))
    else if c = ',' then
      match skipBlanks rest with
      | [] => .error .ended
      | d :: after => if d = close then .error .malformed else .ok (.item (d :: after))
    else .error .malformed

/-- The key of an object's field, and the text behind it. -/
def key (strict : Bool) : List Char → Outcome (List Char)
  | '"' :: rest => string strict rest
  | _ => .error .malformed

/-- The text behind the colon of an object's field. -/
def colon (text : List Char) : Except Fault (List Char) :=
  match skipBlanks text with
  | [] => .error .ended
  | ':' :: rest => .ok rest
  | _ => .error .malformed

/-- The fault of a value of a shape that was not asked for, the blanks before it
being passed. A scalar is read to its end first. -/
def unsuitable : List Char → Fault
  | '[' :: _ => .unsuitable
  | '\x7b' :: _ => .unsuitable
  | text =>
    match scalar true text with
    | .ok _ => .unsuitable
    | .error fault => fault

/-! ## What is left -/

/-- A text takes at least its closing quote. The recursion is that of the reader, so every
character and every escape is counted as it is read. -/
theorem string_length {strict : Bool} {text rest value : List Char}
    (read : string strict text = .ok (value, rest)) : rest.length < text.length := by
  fun_induction string strict text generalizing value rest <;>
    grind [→ escape_length]

/-- A word takes what is left of it, which may be nothing. -/
theorem word_length {expected text rest : List Char} (read : word expected text = .ok rest) :
    rest.length ≤ text.length := by
  fun_induction word expected text <;> grind

/-- Digits are taken one at a time, and there is at least one. -/
theorem digits_length {strict : Bool} {text rest taken : List Char}
    (read : digits strict text = .ok (taken, rest)) : rest.length < text.length := by
  simp only [digits] at read
  split at read
  · cases read
  · next some_taken =>
    have whole := congrArg List.length
      (List.takeWhile_append_dropWhile (p := Char.isDigit) (l := text))
    have positive : (text.takeWhile Char.isDigit).length ≠ 0 := by
      simpa using some_taken
    cases read
    rw [List.length_append] at whole
    omega

/-- The part before the dot takes at least one digit. -/
theorem integral_length {strict : Bool} {text rest taken : List Char}
    (read : integral strict text = .ok (taken, rest)) : rest.length < text.length := by
  unfold integral at read
  grind [→ digits_length]

/-- There may be no fraction, and then nothing is taken. -/
theorem fraction_length {strict : Bool} {text rest taken : List Char}
    (read : fraction strict text = .ok (taken, rest)) : rest.length ≤ text.length := by
  unfold fraction at read
  grind [→ digits_length]

/-- Behind a mark for exponents there is at least one digit. -/
theorem exponentDigits_length {strict negative : Bool} {text rest : List Char} {power : Int}
    (read : exponentDigits strict negative text = .ok (power, rest)) :
    rest.length < text.length := by
  unfold exponentDigits at read
  grind [→ digits_length]

/-- There may be no exponent, and then nothing is taken. -/
theorem exponent_length {strict : Bool} {text rest : List Char} {power : Int}
    (read : exponent strict text = .ok (power, rest)) : rest.length ≤ text.length := by
  unfold exponent at read
  grind [→ exponentDigits_length]

/-- A number takes at least the digits of its first part; the other two parts can only take
more. -/
theorem number_length {strict : Bool} {text rest : List Char}
    (read : number strict text = .ok rest) : rest.length < text.length := by
  simp only [number, bind, Except.bind] at read
  grind [→ integral_length, → fraction_length, → exponent_length]

/-- A scalar takes at least its first character. Whatever kind of scalar that begins, the reader
of the kind goes on behind it. -/
theorem scalar_length {strict : Bool} {text rest : List Char}
    (read : scalar strict text = .ok rest) : rest.length < text.length := by
  unfold scalar at read
  split at read
  · next after =>
    cases inside : string strict after with
    | error fault => simp [inside, Except.map] at read
    | ok pair =>
      have shorter := string_length (inside.trans (by rfl : _ = Except.ok (pair.1, pair.2)))
      simp only [inside, Except.map, Except.ok.injEq] at read
      rw [← read, List.length_cons]
      omega
  · have := number_length read
    rw [List.length_cons]
    omega
  · have := word_length read
    rw [List.length_cons]
    omega
  · have := word_length read
    rw [List.length_cons]
    omega
  · have := word_length read
    rw [List.length_cons]
    omega
  · split at read
    · exact number_length read
    · cases read
  · cases read

/-- The mark that closes a container is taken. -/
theorem step_closed_length {close : Char} {first : Bool} {text rest : List Char}
    (read : step close first text = .ok (.closed rest)) : rest.length < text.length := by
  have blanks := skipBlanks_length text
  unfold step at read
  grind

/-- An item begins where blanks and a comma end, so that nothing of it is taken yet. -/
theorem step_item_length {close : Char} {first : Bool} {text item : List Char}
    (read : step close first text = .ok (.item item)) : item.length ≤ text.length := by
  have blanks := skipBlanks_length text
  unfold step at read
  grind [skipBlanks_length]

/-- A key takes at least its quotes. -/
theorem key_length {strict : Bool} {text rest value : List Char}
    (read : key strict text = .ok (value, rest)) : rest.length < text.length := by
  unfold key at read
  grind [→ string_length]

/-- The colon is taken. -/
theorem colon_length {text rest : List Char} (read : colon text = .ok rest) :
    rest.length < text.length := by
  have blanks := skipBlanks_length text
  unfold colon at read
  grind

/-! ## Items -/

/-- How an item of a list or an object is read: what it makes of all that was read before.
Every item takes something, so that a loop over the items comes to an end. -/
structure ItemReader (α : Type) where
  read : α → List Char → Outcome α
  read_length : ∀ {before after : α} {text rest : List Char},
    read before text = .ok (after, rest) → rest.length < text.length

namespace ItemReader

variable {α : Type} (reader : ItemReader α)

/-- What the items up to the mark `close` make of all that was read before: behind the
opening mark, if `first`, or else behind an item. -/
def items (close : Char) (first : Bool) (before : α) (text : List Char) : Outcome α :=
  match found : step close first text with
  | .error fault => .error fault
  | .ok (.closed rest) => .ok (before, rest)
  | .ok (.item item) =>
    match taken : reader.read before item with
    | .error fault => .error fault
    | .ok (after, rest) =>
      have := step_item_length found
      have := reader.read_length taken
      items close false after rest
termination_by text.length

/-- The closing mark is taken in any case. -/
theorem items_length {close : Char} {first : Bool} {before after : α} {text rest : List Char}
    (read : reader.items close first before text = .ok (after, rest)) :
    rest.length < text.length := by
  fun_induction reader.items close first before text <;>
    grind [→ step_closed_length, → step_item_length, → reader.read_length]

end ItemReader

/-! ## Passing over a value -/

/-- What can hold values. -/
inductive Container where
  | list
  | object
deriving DecidableEq

/-- The mark that closes a container. -/
def Container.close : Container → Char
  | .list => ']'
  | .object => '\x7d'

/-- The text before the value of an item, behind its key if it has one. -/
def Container.value (container : Container) (item : List Char) : Except Fault (List Char) :=
  match container with
  | .list => .ok item
  | .object =>
    match key false item with
    | .ok (_, after) => colon after
    | .error fault => .error fault

/-- In a list the value begins where the item does, and in an object a key and a colon are taken
first. -/
theorem Container.value_length {container : Container} {item rest : List Char}
    (read : container.value item = .ok rest) : rest.length ≤ item.length := by
  unfold Container.value at read
  grind [→ key_length, → colon_length]

mutual

/-- The text behind the value ahead and behind all containers around it, the
innermost first. -/
def skipValue (around : List Container) (text : List Char) : Except Fault (List Char) :=
  have := skipBlanks_length text
  match _ahead : skipBlanks text with
  | '[' :: rest => skipItems .list around true rest
  | '\x7b' :: rest => skipItems .object around true rest
  | plain =>
    match read : scalar false plain with
    | .error fault => .error fault
    | .ok rest =>
      have := scalar_length read
      match around with
      | [] => .ok rest
      | container :: outer => skipItems container outer false rest
termination_by 2 * text.length
decreasing_by all_goals grind

/-- The text behind the rest of a container and of all containers around it. -/
def skipItems (container : Container) (around : List Container) (first : Bool)
    (text : List Char) : Except Fault (List Char) :=
  match found : step container.close first text with
  | .error fault => .error fault
  | .ok (.closed rest) =>
    have := step_closed_length found
    match around with
    | [] => .ok rest
    | next :: outer => skipItems next outer false rest
  | .ok (.item item) =>
    have := step_item_length found
    match read : container.value item with
    | .error fault => .error fault
    | .ok value =>
      have := Container.value_length read
      skipValue (container :: around) value
termination_by 2 * text.length + 1
decreasing_by all_goals grind

end

mutual

/-- A value that is passed over takes at least one character. This is proved together with the
same fact about the rest of a container, along the two measures by which the readers end: a
container counts from behind its opening mark. -/
theorem skipValue_length {around : List Container} {text rest : List Char}
    (read : skipValue around text = .ok rest) : rest.length < text.length := by
  have blanks := skipBlanks_length text
  unfold skipValue at read
  split at read
  · next inside ahead =>
    have shorter : inside.length < text.length := by
      rw [ahead, List.length_cons] at blanks
      omega
    exact Nat.lt_trans (skipItems_length read) shorter
  · next inside ahead =>
    have shorter : inside.length < text.length := by
      rw [ahead, List.length_cons] at blanks
      omega
    exact Nat.lt_trans (skipItems_length read) shorter
  · next plain _ =>
    split at read
    · cases read
    · next after scalarRead =>
      have shorter : after.length < text.length := by
        have := scalar_length scalarRead
        omega
      split at read
      · cases read
        exact shorter
      · exact Nat.lt_trans (skipItems_length read) shorter
termination_by 2 * text.length

/-- The rest of a container takes at least its closing mark. A closed container leads on to the
one around it, and an item to a value, each with less text ahead. -/
theorem skipItems_length {container : Container} {around : List Container} {first : Bool}
    {text rest : List Char} (read : skipItems container around first text = .ok rest) :
    rest.length < text.length := by
  unfold skipItems at read
  split at read
  · cases read
  · next after found =>
    have shorter := step_closed_length found
    split at read
    · cases read
      exact shorter
    · exact Nat.lt_trans (skipItems_length read) shorter
  · next item found =>
    have shorter := step_item_length found
    split at read
    · cases read
    · next value valueRead =>
      have := Container.value_length valueRead
      have := skipValue_length read
      omega
termination_by 2 * text.length + 1

end

end MessageSchema.JsonReader
