/-!
# Blank characters

A schema text may be laid out with any character of the Unicode property
`White_Space`, not only with the four blanks of ASCII. The property is a fixed
table of ranges, kept here in ascending order.
-/

namespace MessageSchema.Text

/-- The ranges of the property `White_Space`, both ends included. -/
def blankRanges : List (Nat × Nat) :=
  [(0x09, 0x0D), (0x20, 0x20), (0x85, 0x85), (0xA0, 0xA0), (0x1680, 0x1680),
   (0x2000, 0x200A), (0x2028, 0x2029), (0x202F, 0x202F), (0x205F, 0x205F), (0x3000, 0x3000)]

/-- Whether a character only separates others. -/
def isBlank (c : Char) : Bool :=
  blankRanges.any fun range => range.1 ≤ c.toNat && c.toNat ≤ range.2

/-- Whether a text has nothing in it but blanks; the empty text counts. -/
def isBlankText (s : String) : Bool :=
  s.toList.all isBlank

example : isBlank '\n' = true := by decide

example : (blankRanges.map fun range => range.2 - range.1 + 1).sum = 25 := by decide

end MessageSchema.Text
