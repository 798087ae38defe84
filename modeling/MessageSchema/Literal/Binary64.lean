/-!
# The range of 64-bit binary numbers

A number of this format has 53 binary digits and an exponent with a bound. What
lies between two such numbers is rounded to the nearer one, and a half to the
one whose last digit is even. From `overflow` on there is none to round to.

Only the rounding of natural numbers and the question whether a decimal number
is in range are answered here. Small numbers are always in range: in the worst
case they are rounded to zero.
-/

namespace MessageSchema.Literal.Binary64

/-- The least number that is not rounded to a number of the format: it lies half
a step above the greatest one. -/
def overflow : Nat :=
  Nat.pow 2 1024 - Nat.pow 2 970

/-- The greatest power of ten of the format. -/
def maxPower : Nat := 308

/-- The distance between the numbers of the format around `n`. -/
def step (n : Nat) : Nat :=
  Nat.pow 2 (n.log2 + 1 - 53)

/-- The number of the format that is nearest to `n`, as if its exponent had no
bound. -/
def rounded (n : Nat) : Nat :=
  let below := n / step n
  let part := n % step n
  if 2 * part < step n || 2 * part == step n && below % 2 == 0 then below * step n
  else (below + 1) * step n

/-- Whether `significand` times ten to the power `exponent` is rounded to a number
of the format. -/
def inRange (significand : Nat) : Int → Bool
  | .ofNat up => significand == 0 || up ≤ maxPower && significand * Nat.pow 10 up < overflow
  | .negSucc down => significand < overflow * Nat.pow 10 (down + 1)

/-- Whether two natural numbers, each rounded by itself, have a product that is
rounded to a number of the format. -/
def productInRange (left right : Nat) : Bool :=
  rounded left * rounded right < overflow

/-! A half goes to the even neighbour, and rounding twice can leave the range. -/

example : rounded (2 ^ 53 + 1) = 2 ^ 53 ∧ rounded (2 ^ 53 + 3) = 2 ^ 53 + 4 := by
  decide +kernel

example : inRange 17976931348623158 292 = true
    ∧ productInRange 17976931348623158 (10 ^ 292) = false := by
  decide +kernel

end MessageSchema.Literal.Binary64
