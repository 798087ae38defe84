/-!
# Reading bytes as text

Bytes are read as UTF-8 from the left, one character at a time, in the shortest
form only and without surrogates. A reading that stops says how many bytes were
read before the fault and how many bytes the fault covers: as many as could
still have begun a character, and no number when the input ends inside one.
-/

namespace MessageSchema.Text.Utf8

/-- A stop: `offset` bytes are well formed, and the next `length?` bytes are not.
There is no length if the input ends where a character could still go on. -/
structure Fault where
  offset : Nat
  length? : Option Nat
deriving DecidableEq

/-- How many bytes the character with this first byte takes, and zero if no
character begins with it. -/
def width (b : UInt8) : Nat :=
  if b < 0x80 then 1
  else if 0xC2 ≤ b && b ≤ 0xDF then 2
  else if 0xE0 ≤ b && b ≤ 0xEF then 3
  else if 0xF0 ≤ b && b ≤ 0xF4 then 4
  else 0

/-- Whether a byte can only continue a character. -/
def isTail (b : UInt8) : Bool :=
  0x80 ≤ b && b ≤ 0xBF

/-- Whether a continuing byte may be the second of the character that begins with
`b`: behind some first bytes it would give a number with a shorter form, a
surrogate, or a number beyond all scalar values. -/
def isSecond (b b₂ : UInt8) : Bool :=
  if b = 0xE0 then 0xA0 ≤ b₂ && b₂ ≤ 0xBF
  else if b = 0xED then 0x80 ≤ b₂ && b₂ ≤ 0x9F
  else if b = 0xF0 then 0x90 ≤ b₂ && b₂ ≤ 0xBF
  else if b = 0xF4 then 0x80 ≤ b₂ && b₂ ≤ 0x8F
  else isTail b₂

/-- The six bits that a continuing byte carries. -/
def payload (b : UInt8) : Nat :=
  b.toNat % 0x40

/-- The scalar value of two bytes. -/
def scalar₂ (b b₂ : UInt8) : Nat :=
  b.toNat % 0x20 * 0x40 + payload b₂

/-- The scalar value of three bytes. -/
def scalar₃ (b b₂ b₃ : UInt8) : Nat :=
  (b.toNat % 0x10 * 0x40 + payload b₂) * 0x40 + payload b₃

/-- The scalar value of four bytes. -/
def scalar₄ (b b₂ b₃ b₄ : UInt8) : Nat :=
  ((b.toNat % 8 * 0x40 + payload b₂) * 0x40 + payload b₃) * 0x40 + payload b₄

/-- The first character of the bytes with the bytes behind it, or the number of
bytes that the fault covers, if the input does not end there. -/
def first (b : UInt8) (bytes : List UInt8) : Except (Option Nat) (Char × List UInt8) :=
  match width b, bytes with
  | 1, rest => .ok (Char.ofNat b.toNat, rest)
  | 2, [] => .error none
  | 2, b₂ :: rest =>
    if isSecond b b₂ then .ok (Char.ofNat (scalar₂ b b₂), rest) else .error (some 1)
  | 3, [] => .error none
  | 3, b₂ :: more =>
    if isSecond b b₂ then
      match more with
      | [] => .error none
      | b₃ :: rest =>
        if isTail b₃ then .ok (Char.ofNat (scalar₃ b b₂ b₃), rest) else .error (some 2)
    else .error (some 1)
  | 4, [] => .error none
  | 4, b₂ :: more =>
    if isSecond b b₂ then
      match more with
      | [] => .error none
      | b₃ :: more =>
        if isTail b₃ then
          match more with
          | [] => .error none
          | b₄ :: rest =>
            if isTail b₄ then .ok (Char.ofNat (scalar₄ b b₂ b₃ b₄), rest) else .error (some 3)
        else .error (some 2)
    else .error (some 1)
  | _, _ => .error (some 1)

/-- A character that was read took at least the byte it began with. -/
theorem first_rest_length {b : UInt8} {bytes rest : List UInt8} {c : Char}
    (read : first b bytes = .ok (c, rest)) : rest.length ≤ bytes.length := by
  unfold first at read
  grind

/-- The characters that can be read, and the bytes left at the first fault with
the number of them that it covers. -/
def split : List UInt8 → List Char × Option (List UInt8 × Option Nat)
  | [] => ([], none)
  | b :: bytes =>
    match read : first b bytes with
    | .error covered => ([], some (b :: bytes, covered))
    | .ok (c, rest) =>
      have : rest.length ≤ bytes.length := first_rest_length read
      let (more, stop) := split rest
      (c :: more, stop)
termination_by bytes => bytes.length

/-- The text of the bytes, or what could be read of it and the fault behind it. -/
def decode (bytes : List UInt8) : Except (List Char × Fault) (List Char) :=
  match split bytes with
  | (text, none) => .ok text
  | (text, some (left, covered)) => .error (text, ⟨bytes.length - left.length, covered⟩)

end MessageSchema.Text.Utf8
