import Mathlib.Data.Nat.Digits.Defs
import MessageSchema.Literal.Number

/-!
# Integers in text

What an integer literal is and which number it denotes is said here without the
procedure that reads one: a digit by its place in a table, digits with single
underscores between them by how they are put together, and their number by the
positional system. A literal may have a minus sign and may be hexadecimal.

The main statement compares this with the procedure, which gives the value of
every integer literal between the bounds of 128 bits, with one exception: the
least of these numbers is refused, since the limit is put on the magnitude before
the sign is looked at.
-/

namespace MessageSchema.Literal.Number

/-! ## Digits -/

/-- The digits by their values, with small letters. -/
def smallDigits : List Char :=
  ['0', '1', '2', '3', '4', '5', '6', '7', '8', '9', 'a', 'b', 'c', 'd', 'e', 'f']

/-- The digits by their values, with capital letters. -/
def capitalDigits : List Char :=
  ['0', '1', '2', '3', '4', '5', '6', '7', '8', '9', 'A', 'B', 'C', 'D', 'E', 'F']

/-- The character `c` is the digit of value `v` in the base. -/
def Digit (radix : Nat) (c : Char) (v : Nat) : Prop :=
  v < radix ∧ (smallDigits[v]? = some c ∨ capitalDigits[v]? = some c)

/-- Whether a character is the digit of a value can be looked up in the tables. -/
instance (radix : Nat) (c : Char) (v : Nat) : Decidable (Digit radix c v) :=
  inferInstanceAs (Decidable (_ ∧ _))

/-- What holds of the characters of ASCII one by one holds of all of them. -/
theorem forall_ascii {p : Char → Prop} (each : ∀ n < 128, p (Char.ofNat n)) {c : Char}
    (ascii : c.toNat < 128) : p c := by
  have holds := each c.toNat ascii
  rwa [Char.ofNat_toNat] at holds

section Digit

variable {radix : Nat} {c : Char} {v : Nat}

/-- All digits are characters of ASCII, since those in the tables are. -/
theorem Digit.ascii (digit : Digit radix c v) : c.toNat < 128 := by
  have listed : ∀ c ∈ smallDigits ++ capitalDigits, c.toNat < 128 := by
    simp [smallDigits, capitalDigits]
  apply listed
  rcases digit.2 with place | place
  · exact List.mem_append_left _ (List.mem_of_getElem? place)
  · exact List.mem_append_right _ (List.mem_of_getElem? place)

/-- A character that is read as a digit is one of ASCII: the three ranges of digits end
before. -/
theorem ascii_of_digit? (found : digit? 16 c = some v) : c.toNat < 128 := by
  simp only [digit?, Char.isDigit, Char.le_def, UInt32.le_iff_toNat_le, Bool.and_eq_true,
    decide_eq_true_eq, ge_iff_le] at found
  have code : c.toNat = c.val.toNat := rfl
  have nine : '9'.val.toNat = 57 := rfl
  have small : 'f'.val.toNat = 102 := rfl
  have capital : 'F'.val.toNat = 70 := rfl
  split at found
  · omega
  · split at found
    · omega
    · split at found
      · omega
      · exact nomatch found

/-- A smaller base has those digits that stand for less. -/
theorem digit?_eq_some_iff_below (small : radix ≤ 16) :
    digit? radix c = some v ↔ v < radix ∧ digit? 16 c = some v := by
  simp only [digit?, Option.ite_none_right_eq_some, Option.some.injEq]
  constructor
  · rintro ⟨below, rfl⟩
    exact ⟨below, by omega, rfl⟩
  · rintro ⟨below, -, rfl⟩
    exact ⟨below, rfl⟩

/-- The procedure finds exactly the digits of the table. -/
theorem digit?_eq_some_iff (small : radix ≤ 16) : digit? radix c = some v ↔ Digit radix c v := by
  have table : ∀ n < 128, ∀ v < 16,
      digit? 16 (Char.ofNat n) = some v ↔ Digit 16 (Char.ofNat n) v := by decide +kernel
  have sixteen : v < 16 → c.toNat < 128 → (digit? 16 c = some v ↔ Digit 16 c v) :=
    fun below ascii => forall_ascii (p := fun c => ∀ v < 16, digit? 16 c = some v ↔ Digit 16 c v)
      table ascii v below
  rw [digit?_eq_some_iff_below small]
  constructor
  · rintro ⟨below, found⟩
    exact ⟨below, ((sixteen (by omega) (ascii_of_digit? found)).mp found).2⟩
  · intro digit
    have below : v < 16 := by have := digit.1; omega
    exact ⟨digit.1, (sixteen below digit.ascii).mpr ⟨below, digit.2⟩⟩

/-- A character is read as a digit exactly if it is one of some value. -/
theorem isDigit_iff (small : radix ≤ 16) : isDigit radix c = true ↔ ∃ v, Digit radix c v := by
  simp only [isDigit, Option.isSome_iff_exists, digit?_eq_some_iff small]

/-- The mark between groups is no digit, in any base. -/
theorem digit?_underscore (small : radix ≤ 16) : digit? radix '_' = none := by
  apply Option.eq_none_iff_forall_ne_some.mpr
  intro v found
  have sixteen := ((digit?_eq_some_iff_below small).mp found).2
  exact nomatch sixteen

/-- A digit is not the mark between groups. -/
theorem Digit.ne_underscore (small : radix ≤ 16) (digit : Digit radix c v) : c ≠ '_' := by
  rintro rfl
  have found := (digit?_eq_some_iff small).mpr digit
  rw [digit?_underscore small] at found
  exact nomatch found

end Digit

/-! ## Digits in groups -/

/-- The text consists of digits with the given values, each two of them side by
side or with one underscore between them. -/
inductive Grouped (radix : Nat) : List Char → List Nat → Prop
  | single {c : Char} {v : Nat} (digit : Digit radix c v) : Grouped radix [c] [v]
  | adjacent {c : Char} {v : Nat} {text : List Char} {values : List Nat}
      (digit : Digit radix c v) (more : Grouped radix text values) :
      Grouped radix (c :: text) (v :: values)
  | apart {c : Char} {v : Nat} {text : List Char} {values : List Nat}
      (digit : Digit radix c v) (more : Grouped radix text values) :
      Grouped radix (c :: '_' :: text) (v :: values)

/-- The text is a numeral of the base and denotes `n`: the last digit counts
single, and every other one as often as the base says more than the next. -/
def Numeral (radix : Nat) (text : List Char) (n : Nat) : Prop :=
  ∃ values, Grouped radix text values ∧ n = Nat.ofDigits radix values.reverse

section Grouped

variable {radix : Nat} {text : List Char} {values : List Nat}

/-- Grouped digits begin with a digit. -/
theorem Grouped.exists_first (grouped : Grouped radix text values) :
    ∃ c v rest, text = c :: rest ∧ Digit radix c v := by
  cases grouped with
  | single digit => exact ⟨_, _, _, rfl, digit⟩
  | adjacent digit _ => exact ⟨_, _, _, rfl, digit⟩
  | apart digit _ => exact ⟨_, _, _, rfl, digit⟩

/-- The digits of a number begin with a digit. -/
theorem Numeral.exists_first {n : Nat} (digits : Numeral radix text n) :
    ∃ c v rest, text = c :: rest ∧ Digit radix c v := by
  obtain ⟨values, grouped, -⟩ := digits
  exact grouped.exists_first

/-- Grouped digits hold nothing but digits and marks between them. -/
theorem Grouped.mem (grouped : Grouped radix text values) :
    ∀ c ∈ text, c = '_' ∨ ∃ v, Digit radix c v := by
  induction grouped with
  | single digit => simpa using .inr ⟨_, digit⟩
  | adjacent digit _ ih =>
    rw [List.forall_mem_cons]
    exact ⟨.inr ⟨_, digit⟩, ih⟩
  | apart digit _ ih =>
    rw [List.forall_mem_cons, List.forall_mem_cons]
    exact ⟨.inr ⟨_, digit⟩, .inl rfl, ih⟩

/-- Digits that are put together with single marks between them pass the test for groups. By
induction on how they are put together; behind a digit the next one tells that no mark
follows. -/
theorem isGrouped_of_grouped (small : radix ≤ 16) (grouped : Grouped radix text values) :
    isGrouped radix text = true := by
  induction grouped with
  | single digit =>
    exact (isDigit_iff small).mpr ⟨_, digit⟩
  | adjacent digit more ih =>
    obtain ⟨d, v, rest, rfl, first⟩ := more.exists_first
    rw [isGrouped, Bool.and_eq_true]
    · exact ⟨(isDigit_iff small).mpr ⟨_, digit⟩, ih⟩
    · exact List.cons_ne_nil d rest
    · intro others same
      exact first.ne_underscore small (List.cons.inj same).1
  | apart digit _ ih =>
    rw [isGrouped, Bool.and_eq_true]
    exact ⟨(isDigit_iff small).mpr ⟨_, digit⟩, ih⟩

/-- What passes the test for groups is put together in this way, with some values for its
digits. The induction follows the test, which looks at two characters at most. -/
theorem exists_grouped (small : radix ≤ 16) (holds : isGrouped radix text = true) :
    ∃ values, Grouped radix text values := by
  fun_induction isGrouped radix text with
  | case1 => exact nomatch holds
  | case2 c =>
    obtain ⟨v, digit⟩ := (isDigit_iff small).mp holds
    exact ⟨[v], .single digit⟩
  | case3 c rest ih =>
    rw [Bool.and_eq_true] at holds
    obtain ⟨v, digit⟩ := (isDigit_iff small).mp holds.1
    obtain ⟨values, more⟩ := ih holds.2
    exact ⟨v :: values, .apart digit more⟩
  | case4 c rest _ _ ih =>
    rw [Bool.and_eq_true] at holds
    obtain ⟨v, digit⟩ := (isDigit_iff small).mp holds.1
    obtain ⟨values, more⟩ := ih holds.2
    exact ⟨v :: values, .adjacent digit more⟩

/-- Underscores are passed over, digits are not. -/
theorem Grouped.filterMap_digit? (small : radix ≤ 16) (grouped : Grouped radix text values) :
    text.filterMap (digit? radix) = values := by
  induction grouped with
  | single digit =>
    rw [List.filterMap_cons_some ((digit?_eq_some_iff small).mpr digit), List.filterMap_nil]
  | adjacent digit _ ih =>
    rw [List.filterMap_cons_some ((digit?_eq_some_iff small).mpr digit), ih]
  | apart digit _ ih =>
    rw [List.filterMap_cons_some ((digit?_eq_some_iff small).mpr digit),
      List.filterMap_cons_none (digit?_underscore small), ih]

/-- Digits taken from the left come to what they denote in the positional system. -/
theorem value_eq_ofDigits (read : text.filterMap (digit? radix) = values) :
    value radix text = Nat.ofDigits radix values.reverse := by
  have step : (fun sum digit => sum * radix + digit) = fun sum digit : Nat => digit + radix * sum := by
    funext sum digit
    rw [Nat.mul_comm, Nat.add_comm]
  rw [value, read, step, Nat.ofDigits_eq_foldr, List.foldr_reverse]
  rfl

/-- The test for groups and the value of the digits are those of numerals. -/
theorem numeral_iff (small : radix ≤ 16) {n : Nat} :
    Numeral radix text n ↔ isGrouped radix text = true ∧ value radix text = n := by
  constructor
  · rintro ⟨values, grouped, rfl⟩
    exact ⟨isGrouped_of_grouped small grouped,
      value_eq_ofDigits (grouped.filterMap_digit? small)⟩
  · rintro ⟨holds, rfl⟩
    obtain ⟨values, grouped⟩ := exists_grouped small holds
    exact ⟨values, grouped, value_eq_ofDigits (grouped.filterMap_digit? small)⟩

end Grouped

/-! ## Digits side by side -/

/-- The digits of the base, without underscores, denote `n`. -/
def Denotes (radix : Nat) (digits : List Char) (n : Nat) : Prop :=
  ∃ values, List.Forall₂ (Digit radix) digits values ∧ n = Nat.ofDigits radix values.reverse

/-- Digits have the values that are read off them one by one. -/
theorem forall₂_digit {radix : Nat} (small : radix ≤ 16) {digits : List Char} {values : List Nat} :
    List.Forall₂ (Digit radix) digits values
      ↔ (∀ c ∈ digits, isDigit radix c = true) ∧ digits.filterMap (digit? radix) = values := by
  induction digits generalizing values with
  | nil =>
    constructor
    · rintro ⟨⟩
      exact ⟨nofun, rfl⟩
    · rintro ⟨-, rfl⟩
      exact .nil
  | cons c rest ih =>
    rw [List.forall_mem_cons, isDigit, Option.isSome_iff_exists]
    constructor
    · rintro (_ | ⟨digit, more⟩)
      have found := (digit?_eq_some_iff small).mpr digit
      obtain ⟨later, same⟩ := ih.mp more
      exact ⟨⟨⟨_, found⟩, later⟩, by rw [List.filterMap_cons_some found, same]⟩
    · rintro ⟨⟨⟨v, found⟩, later⟩, rfl⟩
      rw [List.filterMap_cons_some found]
      exact .cons ((digit?_eq_some_iff small).mp found) (ih.mpr ⟨later, rfl⟩)

/-- Digits denote a number exactly if all of them are digits of the base and the number is the
one that is read off them. -/
theorem denotes_iff {radix : Nat} (small : radix ≤ 16) {digits : List Char} {n : Nat} :
    Denotes radix digits n
      ↔ (∀ c ∈ digits, isDigit radix c = true) ∧ value radix digits = n := by
  constructor
  · rintro ⟨values, matched, rfl⟩
    obtain ⟨all, read⟩ := (forall₂_digit small).mp matched
    exact ⟨all, value_eq_ofDigits read⟩
  · rintro ⟨all, rfl⟩
    exact ⟨_, (forall₂_digit small).mpr ⟨all, rfl⟩, value_eq_ofDigits rfl⟩

/-! ## Cutting a text -/

section Cut

variable {p : Char → Bool} {before after text : List Char}

/-- What is in front of the first mark is passed over. -/
theorem cutAt_append (passed : ∀ c ∈ before, p c = false) (after : List Char) :
    cutAt p (before ++ after) = (before ++ (cutAt p after).1, (cutAt p after).2) := by
  induction before with
  | nil => rfl
  | cons c rest ih =>
    rw [List.forall_mem_cons] at passed
    rw [List.cons_append, cutAt, passed.1, ih passed.2]
    rfl

/-- Without a mark nothing is cut off. -/
theorem cutAt_of_absent (passed : ∀ c ∈ text, p c = false) : cutAt p text = (text, none) := by
  have whole := cutAt_append passed []
  rw [List.append_nil] at whole
  rw [whole, cutAt, List.append_nil]

/-- At the first mark a text is cut. -/
theorem cutAt_of_found {mark : Char} (passed : ∀ c ∈ before, p c = false) (found : p mark = true) :
    cutAt p (before ++ mark :: after) = (before, some after) := by
  rw [cutAt_append passed, cutAt, if_pos found, List.append_nil]

/-- Where no mark is found, the text is left whole. -/
theorem text_of_cutAt_none (cut : cutAt p text = (before, none)) : text = before := by
  fun_induction cutAt p text generalizing before with
  | case1 =>
    cases cut
    rfl
  | case2 => exact nomatch cut
  | case3 c rest _ taken left same ih =>
    cases cut
    rw [ih same]

/-- Where one is found, the text is put together again from what is before it, the mark and what
is behind it. -/
theorem text_of_cutAt_some (cut : cutAt p text = (before, some after)) :
    ∃ mark, p mark = true ∧ text = before ++ mark :: after := by
  fun_induction cutAt p text generalizing before with
  | case1 => exact nomatch cut
  | case2 c rest found =>
    cases cut
    exact ⟨c, found, rfl⟩
  | case3 c rest _ taken left same ih =>
    cases cut
    obtain ⟨mark, found, rfl⟩ := ih same
    exact ⟨mark, found, rfl⟩

end Cut

/-- What stands in decimal numerals is neither a sign for hexadecimal digits nor
the beginning of another part. -/
theorem Grouped.decimal_mem {text : List Char} {values : List Nat}
    (grouped : Grouped 10 text values) :
    ∀ c ∈ text, isExponentMark c = false ∧ (c == '.') = false ∧ (c == 'x') = false
      ∧ (c == 'X') = false := by
  intro c member
  rcases grouped.mem c member with rfl | ⟨v, digit⟩
  · decide
  · have found := (digit?_eq_some_iff (by decide)).mpr digit
    have table : ∀ n < 128, (digit? 10 (Char.ofNat n)).isSome → isExponentMark (Char.ofNat n) = false
        ∧ (Char.ofNat n == '.') = false ∧ (Char.ofNat n == 'x') = false
        ∧ (Char.ofNat n == 'X') = false := by decide +kernel
    exact forall_ascii (p := fun c => (digit? 10 c).isSome → isExponentMark c = false
      ∧ (c == '.') = false ∧ (c == 'x') = false ∧ (c == 'X') = false) table digit.ascii
      (Option.isSome_of_eq_some found)

namespace Parts

/-- A text without a sign for hexadecimal digits is cut at its first exponent mark
and before that at its first dot. -/
theorem ofUnsigned_of_absent {text : List Char}
    (absent : ∀ c ∈ text, (c == 'x') = false ∧ (c == 'X') = false) :
    ofUnsigned text = .decimal (cutAt (· == '.') (cutAt isExponentMark text).1).1
      (cutAt (· == '.') (cutAt isExponentMark text).1).2 (cutAt isExponentMark text).2 := by
  have notHexadecimal : ∀ mark rest, (mark == 'x') = true ∨ (mark == 'X') = true →
      text ≠ '0' :: mark :: rest := by
    rintro mark rest marked rfl
    have := absent mark (by simp)
    simp_all
  rw [ofUnsigned]
  · exact fun digits => notHexadecimal 'x' digits (.inl rfl)
  · exact fun digits => notHexadecimal 'X' digits (.inr rfl)

end Parts

/-! ## Integers -/

/-- The text is an integer literal without a sign and denotes `n`. -/
inductive Magnitude : List Char → Nat → Prop
  | decimal {text : List Char} {n : Nat} (digits : Numeral 10 text n) : Magnitude text n
  | hexadecimal {mark : Char} {text : List Char} {n : Nat} (marked : mark = 'x' ∨ mark = 'X')
      (digits : Numeral 16 text n) : Magnitude ('0' :: mark :: text) n

/-- The text is an integer literal and denotes `v`. -/
inductive Integer : List Char → Int → Prop
  | plain {text : List Char} {n : Nat} (magnitude : Magnitude text n) : Integer text n
  | minus {text : List Char} {n : Nat} (magnitude : Magnitude text n) :
      Integer ('-' :: text) (-n)

/-- Decimal digits are taken for a number without fraction and exponent, since they hold none of
the marks that would cut them. -/
theorem ofUnsigned_of_numeral {text : List Char} {n : Nat} (digits : Numeral 10 text n) :
    Parts.ofUnsigned text = .decimal text none none := by
  obtain ⟨values, grouped, -⟩ := digits
  have plain := grouped.decimal_mem
  rw [Parts.ofUnsigned_of_absent fun c member => (plain c member).2.2,
    cutAt_of_absent fun c member => (plain c member).1,
    cutAt_of_absent fun c member => (plain c member).2.1]

/-- The parts of a text are those of an integer exactly if it is one.

Proof: the two ways of writing a magnitude are the first cases by which a text is taken apart.
In the other direction a fraction or an exponent leaves no magnitude, and without them the text
is put together again. -/
theorem magnitude_iff {text : List Char} {n : Nat} :
    Magnitude text n
      ↔ (Parts.ofUnsigned text).wellFormed = true ∧ (Parts.ofUnsigned text).magnitude? = some n := by
  constructor
  · rintro (digits | ⟨rfl | rfl, digits⟩)
    · rw [ofUnsigned_of_numeral digits]
      obtain ⟨grouped, rfl⟩ := (numeral_iff (by decide)).mp digits
      exact ⟨by simp [Parts.wellFormed, grouped], rfl⟩
    · obtain ⟨grouped, rfl⟩ := (numeral_iff (by decide)).mp digits
      exact ⟨grouped, rfl⟩
    · obtain ⟨grouped, rfl⟩ := (numeral_iff (by decide)).mp digits
      exact ⟨grouped, rfl⟩
  · rintro ⟨sound, denoted⟩
    revert sound denoted
    fun_cases Parts.ofUnsigned text with
    | case1 digits =>
      intro sound denoted
      exact .hexadecimal (.inl rfl) ((numeral_iff (by decide)).mpr ⟨sound, Option.some.inj denoted⟩)
    | case2 digits =>
      intro sound denoted
      exact .hexadecimal (.inr rfl) ((numeral_iff (by decide)).mpr ⟨sound, Option.some.inj denoted⟩)
    | case3 text _ _ mantissa exponent outer integral fraction inner =>
      intro sound denoted
      cases fraction with
      | some digits => exact nomatch denoted
      | none =>
        cases exponent with
        | some digits => exact nomatch denoted
        | none =>
          rw [text_of_cutAt_none outer, text_of_cutAt_none inner]
          refine .decimal ((numeral_iff (by decide)).mpr ⟨?_, Option.some.inj denoted⟩)
          simpa [Parts.wellFormed] using sound

/-- A magnitude begins with a decimal digit, also if it is hexadecimal: then it is the zero
before the `x`. -/
theorem Magnitude.exists_first {text : List Char} {n : Nat} (magnitude : Magnitude text n) :
    ∃ c v rest, text = c :: rest ∧ Digit 10 c v := by
  rcases magnitude with digits | ⟨-, -⟩
  · exact digits.exists_first
  · exact ⟨'0', 0, _, rfl, by decide⟩

/-- What begins with a digit has no minus sign. -/
theorem split_of_digit {text : List Char} (first : ∃ c v rest, text = c :: rest ∧ Digit 10 c v) :
    split text = (false, Parts.ofUnsigned text) := by
  obtain ⟨c, v, rest, rfl, digit⟩ := first
  rw [split]
  rintro _ same
  rw [(List.cons.inj same).1] at digit
  exact nomatch (digit?_eq_some_iff (by decide)).mpr digit

/-- What an integer literal denotes, sign and magnitude apart. -/
theorem integer_iff {text : List Char} {v : Int} :
    Integer text v ↔ ∃ n, (split text).2.wellFormed = true ∧ (split text).2.magnitude? = some n
      ∧ v = if (split text).1 then -(n : Int) else n := by
  constructor
  · rintro (magnitude | magnitude)
    · obtain ⟨sound, denoted⟩ := magnitude_iff.mp magnitude
      rw [split_of_digit magnitude.exists_first]
      exact ⟨_, sound, denoted, rfl⟩
    · obtain ⟨sound, denoted⟩ := magnitude_iff.mp magnitude
      exact ⟨_, sound, denoted, rfl⟩
  · rintro ⟨n, sound, denoted, rfl⟩
    revert sound denoted
    fun_cases split text with
    | case1 unsigned => exact fun sound denoted => .minus (magnitude_iff.mpr ⟨sound, denoted⟩)
    | case2 => exact fun sound denoted => .plain (magnitude_iff.mpr ⟨sound, denoted⟩)

/-- The value that is given is the denoted one, if its magnitude is not too great.

Proof: the denoted value has a sign and a magnitude, which the reader finds by the same split.
It differs only in that it asks whether the magnitude is small enough. -/
theorem integer?_eq_some_iff {text : List Char} {v : Int} :
    integer? text = some v ↔ Integer text v ∧ v.natAbs ≤ greatestMagnitude := by
  rw [integer_iff, integer?]
  obtain ⟨negative, parts⟩ := split text
  constructor
  · intro given
    dsimp only at given ⊢
    split at given
    · rename_i sound
      split at given
      · rename_i n denoted
        split at given
        · rename_i small
          cases given
          refine ⟨⟨n, sound, denoted, rfl⟩, ?_⟩
          cases negative <;> simpa using small
        · exact nomatch given
      · exact nomatch given
    · exact nomatch given
  · rintro ⟨⟨n, sound, denoted, rfl⟩, bounded⟩
    have small : n ≤ greatestMagnitude := by
      cases negative <;> simpa using bounded
    dsimp only at sound denoted ⊢
    rw [if_pos sound, denoted]
    exact if_pos small

/-- The text is an integer literal that denotes `v`, and `v` is within the bounds, the upper
one excluded. -/
structure IntegerWithin (least bound : Int) (text : List Char) (v : Int) : Prop where
  literal : Integer text v
  lower : least ≤ v
  upper : v < bound

/-- Within bounds that are not too wide, the value given is the one denoted. -/
theorem integerWithin?_eq_some_iff {least bound : Int} {text : List Char} {v : Int}
    (narrow : -(greatestMagnitude : Int) ≤ least ∧ bound ≤ greatestMagnitude + 1) :
    integerWithin? least bound text = some v ↔ IntegerWithin least bound text v := by
  rw [integerWithin?, Option.filter_eq_some_iff, integer?_eq_some_iff, Bool.and_eq_true,
    decide_eq_true_eq, decide_eq_true_eq]
  constructor
  · rintro ⟨⟨literal, -⟩, lower, upper⟩
    exact ⟨literal, lower, upper⟩
  · rintro ⟨literal, lower, upper⟩
    exact ⟨⟨literal, by omega⟩, lower, upper⟩

/-- The value of a text is given exactly if the text is an integer literal that
denotes it and it fits into 128 bits with a sign, the least such number excepted:
that one is refused.

Proof: the reader accepts exactly the literals whose magnitude is at most the limit. The limit
is the greatest signed number of 128 bits, which leaves out the least one. -/
theorem integer_value_exact (w : String) (v : Int) :
    integer? w.toList = some v
      ↔ Integer w.toList v ∧ -2 ^ 127 ≤ v ∧ v ≤ 2 ^ 127 - 1 ∧ v ≠ -2 ^ 127 := by
  have limit : greatestMagnitude = 2 ^ 127 - 1 := rfl
  rw [integer?_eq_some_iff, limit]
  apply and_congr_right
  intro _
  omega

/-- The least number of 128 bits with a sign, as a literal. -/
def leastInteger : String :=
  "-170141183460469231731687303715884105728"

/-- The least number fits, and it has no value all the same. -/
theorem least_integer_refused :
    ¬ ∀ (w : String) (v : Int),
      integer? w.toList = some v ↔ Integer w.toList v ∧ -2 ^ 127 ≤ v ∧ v ≤ 2 ^ 127 - 1 := by
  intro exact
  have literal : Integer leastInteger.toList (-2 ^ 127) :=
    integer_iff.mpr ⟨2 ^ 127, by decide +kernel, by decide +kernel, by decide +kernel⟩
  have given := (exact leastInteger (-2 ^ 127)).mpr ⟨literal, by decide, by decide⟩
  exact absurd given (by decide +kernel)

end MessageSchema.Literal.Number
