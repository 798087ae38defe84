import MessageSchema.Proofs.Numerals
import MessageSchema.Proofs.Streams

/-!
# Number literals are read as they are written

The grammar of number literals is given here part by part: an optional minus
sign, then an integer or decimal digits with a fraction, an exponent or both. Two
procedures have to agree with it. The one that judges a text cuts it into parts;
it is compared with the grammar by putting the parts together again. The one that
takes a number from a text decides character by character where the number ends;
for each part of a literal it is shown to pass the whole part, whatever follows.

So a literal before a character that cannot continue it is read as one token
without a fault, and a token of a number has a fault exactly if it is no literal.
-/

namespace MessageSchema

namespace Literal.Number

/-! ## The grammar -/

/-- A dot with digits, or nothing. -/
inductive Fraction : List Char → Prop
  | absent : Fraction []
  | present {text : List Char} {n : Nat} (digits : Numeral 10 text n) : Fraction ('.' :: text)

/-- An exponent mark, a sign or none, and digits, or nothing. -/
inductive Exponent : List Char → Prop
  | absent : Exponent []
  | present {mark : Char} {sign text : List Char} {n : Nat} (marked : mark = 'e' ∨ mark = 'E')
      (signed : sign = [] ∨ sign = ['+'] ∨ sign = ['-']) (digits : Numeral 10 text n) :
      Exponent (mark :: (sign ++ text))

/-- The literals without a minus sign. -/
inductive Unsigned : List Char → Form → Prop
  | integer {text : List Char} {n : Nat} (magnitude : Magnitude text n) : Unsigned text .integer
  | float {whole fraction exponent : List Char} {n : Nat} (digits : Numeral 10 whole n)
      (dotted : Fraction fraction) (raised : Exponent exponent)
      (more : fraction ≠ [] ∨ exponent ≠ []) : Unsigned (whole ++ (fraction ++ exponent)) .float

/-- The text is a number literal of the form. -/
inductive Written : List Char → Form → Prop
  | plain {text : List Char} {form : Form} (unsigned : Unsigned text form) : Written text form
  | minus {text : List Char} {form : Form} (unsigned : Unsigned text form) :
      Written ('-' :: text) form

/-! ## Judging a text -/

/-- In a fraction stands no mark of an exponent and no `x`, as its digits are decimal. -/
theorem Fraction.mem {text : List Char} (fraction : Fraction text) :
    ∀ c ∈ text, isExponentMark c = false ∧ (c == 'x') = false ∧ (c == 'X') = false := by
  cases fraction with
  | absent => exact nofun
  | present digits =>
    obtain ⟨values, grouped, -⟩ := digits
    rw [List.forall_mem_cons]
    refine ⟨by decide, ?_⟩
    intro c member
    have plain := grouped.decimal_mem c member
    exact ⟨plain.1, plain.2.2⟩

/-- In an exponent stands no `x`. -/
theorem Exponent.mem {text : List Char} (exponent : Exponent text) :
    ∀ c ∈ text, (c == 'x') = false ∧ (c == 'X') = false := by
  cases exponent with
  | absent => exact nofun
  | @present mark sign text n marked signed digits =>
    obtain ⟨values, grouped, -⟩ := digits
    have signs : ∀ c ∈ sign, (c == 'x') = false ∧ (c == 'X') = false := by
      rcases signed with rfl | rfl | rfl <;> simp
    rw [List.forall_mem_cons, List.forall_mem_append]
    refine ⟨?_, signs, fun c member => (grouped.decimal_mem c member).2.2⟩
    rcases marked with rfl | rfl <;> decide

/-- The parts of a decimal literal are found again.

Proof: no character of the literal is a hexadecimal mark, none before the exponent an exponent
mark, and none before the fraction a point. So each cut is made where the parts were joined. -/
theorem ofUnsigned_of_parts {whole fraction exponent : List Char} {n : Nat}
    (digits : Numeral 10 whole n) (dotted : Fraction fraction) (raised : Exponent exponent) :
    Parts.ofUnsigned (whole ++ (fraction ++ exponent))
      = .decimal whole fraction.tail? exponent.tail? := by
  obtain ⟨values, grouped, -⟩ := digits
  have plain := grouped.decimal_mem
  have absent : ∀ c ∈ whole ++ (fraction ++ exponent), (c == 'x') = false ∧ (c == 'X') = false := by
    simp only [List.forall_mem_append]
    exact ⟨fun c member => (plain c member).2.2, fun c member => (dotted.mem c member).2, raised.mem⟩
  have mantissa : ∀ c ∈ whole ++ fraction, isExponentMark c = false := by
    rw [List.forall_mem_append]
    exact ⟨fun c member => (plain c member).1, fun c member => (dotted.mem c member).1⟩
  have outer : cutAt isExponentMark (whole ++ (fraction ++ exponent))
      = (whole ++ fraction, exponent.tail?) := by
    rw [← List.append_assoc]
    cases raised with
    | absent =>
      rw [List.append_nil]
      exact cutAt_of_absent mantissa
    | present marked _ _ =>
      apply cutAt_of_found mantissa
      rcases marked with rfl | rfl <;> rfl
  have inner : cutAt (· == '.') (whole ++ fraction) = (whole, fraction.tail?) := by
    have passed : ∀ c ∈ whole, (c == '.') = false := fun c member => (plain c member).2.1
    cases dotted with
    | absent =>
      rw [List.append_nil]
      exact cutAt_of_absent passed
    | present _ => exact cutAt_of_found passed rfl
  rw [Parts.ofUnsigned_of_absent absent, outer, inner]

/-- A sign behind an exponent mark does not count as part of the digits. -/
theorem unsignedExponent_append {sign text : List Char} {values : List Nat}
    (signed : sign = [] ∨ sign = ['+'] ∨ sign = ['-']) (grouped : Grouped 10 text values) :
    unsignedExponent (sign ++ text) = text := by
  rcases signed with rfl | rfl | rfl
  · obtain ⟨c, v, rest, rfl, digit⟩ := grouped.exists_first
    have found := (digit?_eq_some_iff (by decide)).mpr digit
    rw [List.nil_append, unsignedExponent]
    · rintro _ same
      rw [(List.cons.inj same).1] at found
      exact nomatch found
    · rintro _ same
      rw [(List.cons.inj same).1] at found
      exact nomatch found
  · rfl
  · rfl

/-- A sign, or none, is all that stands before the digits of an exponent. -/
theorem exists_sign (text : List Char) : ∃ sign, (sign = [] ∨ sign = ['+'] ∨ sign = ['-'])
    ∧ text = sign ++ unsignedExponent text := by
  fun_cases unsignedExponent text with
  | case1 digits => exact ⟨['+'], .inr (.inl rfl), rfl⟩
  | case2 digits => exact ⟨['-'], .inr (.inr rfl), rfl⟩
  | case3 => exact ⟨[], .inl rfl, rfl⟩

/-- The digits behind the point of a fraction are grouped as they have to be. -/
theorem Fraction.wellFormed {fraction : List Char} (dotted : Fraction fraction) :
    fraction.tail?.all (isGrouped 10) = true := by
  cases dotted with
  | absent => rfl
  | present digits => exact ((numeral_iff (by decide)).mp digits).1

/-- The digits of an exponent are grouped as they have to be, once the sign is taken off. -/
theorem Exponent.wellFormed {exponent : List Char} (raised : Exponent exponent) :
    exponent.tail?.all (isGrouped 10 <| unsignedExponent ·) = true := by
  cases raised with
  | absent => rfl
  | present _ signed digits =>
    obtain ⟨values, grouped, -⟩ := digits
    simp only [List.tail?_cons, Option.all_some, unsignedExponent_append signed grouped]
    exact isGrouped_of_grouped (by decide) grouped

/-- A fraction and an exponent make a float of an integer. -/
theorem Parts.form_decimal {whole fraction exponent : List Char}
    (more : fraction ≠ [] ∨ exponent ≠ []) :
    (Parts.decimal whole fraction.tail? exponent.tail?).form = .float := by
  cases fraction with
  | cons _ _ => rfl
  | nil =>
    cases exponent with
    | cons _ _ => rfl
    | nil => exact absurd more (by simp)

/-- What is cut off at a point is a fraction, if its digits are grouped. No point is found
exactly if the fraction is absent. -/
theorem exists_fraction {text integral : List Char} {fraction : Option (List Char)}
    (cut : cutAt (· == '.') text = (integral, fraction))
    (sound : fraction.all (isGrouped 10) = true) :
    ∃ written, Fraction written ∧ text = integral ++ written ∧ fraction = written.tail? := by
  cases fraction with
  | none =>
    refine ⟨[], .absent, ?_, rfl⟩
    rw [List.append_nil, text_of_cutAt_none cut]
  | some digits =>
    obtain ⟨mark, dot, rfl⟩ := text_of_cutAt_some cut
    cases eq_of_beq dot
    exact ⟨_, .present ((numeral_iff (by decide)).mpr ⟨sound, rfl⟩), rfl, rfl⟩

/-- What is cut off at a mark is an exponent, if the digits behind its sign are grouped. -/
theorem exists_exponent {text mantissa : List Char} {exponent : Option (List Char)}
    (cut : cutAt isExponentMark text = (mantissa, exponent))
    (sound : exponent.all (isGrouped 10 <| unsignedExponent ·) = true) :
    ∃ written, Exponent written ∧ text = mantissa ++ written ∧ exponent = written.tail? := by
  cases exponent with
  | none =>
    refine ⟨[], .absent, ?_, rfl⟩
    rw [List.append_nil, text_of_cutAt_none cut]
  | some rest =>
    obtain ⟨mark, isMark, rfl⟩ := text_of_cutAt_some cut
    obtain ⟨sign, signed, same⟩ := exists_sign rest
    have marked : mark = 'e' ∨ mark = 'E' := by simpa [isExponentMark] using isMark
    refine ⟨mark :: rest, ?_, rfl, rfl⟩
    rw [same]
    exact .present marked signed ((numeral_iff (by decide)).mpr ⟨sound, rfl⟩)

/-- A literal with a magnitude is an integer. -/
theorem Parts.form_of_magnitude? {parts : Parts} {n : Nat} (denoted : parts.magnitude? = some n) :
    parts.form = .integer := by
  revert denoted
  fun_cases Parts.magnitude? parts with
  | case1 => exact fun _ => rfl
  | case2 => exact fun _ => rfl
  | case3 => exact nofun

/-- The parts of a text are those of a literal exactly if it is one.

Proof: a decimal literal is cut into the parts it was made of, as none of its characters looks
like a mark where there is none. In the other direction the parts are put together again, mark
by mark. -/
theorem unsigned_iff {text : List Char} {form : Form} :
    Unsigned text form
      ↔ (Parts.ofUnsigned text).wellFormed = true ∧ (Parts.ofUnsigned text).form = form := by
  constructor
  · rintro (magnitude | ⟨digits, dotted, raised, more⟩)
    · obtain ⟨sound, denoted⟩ := magnitude_iff.mp magnitude
      exact ⟨sound, Parts.form_of_magnitude? denoted⟩
    · rw [ofUnsigned_of_parts digits dotted raised]
      refine ⟨?_, Parts.form_decimal more⟩
      rw [Parts.wellFormed, ((numeral_iff (by decide)).mp digits).1, dotted.wellFormed,
        raised.wellFormed]
      rfl
  · rintro ⟨sound, rfl⟩
    cases denoted : (Parts.ofUnsigned text).magnitude? with
    | some n =>
      rw [Parts.form_of_magnitude? denoted]
      exact .integer (magnitude_iff.mpr ⟨sound, denoted⟩)
    | none =>
      revert sound denoted
      fun_cases Parts.ofUnsigned text with
      | case1 digits =>
        intro _ denoted
        cases denoted
      | case2 digits =>
        intro _ denoted
        cases denoted
      | case3 text _ _ mantissa exponent outer integral fraction inner =>
        intro sound denoted
        rw [Parts.wellFormed, Bool.and_eq_true, Bool.and_eq_true] at sound
        obtain ⟨dotted, isFraction, rfl, rfl⟩ := exists_fraction inner sound.1.2
        obtain ⟨raised, isExponent, rfl, rfl⟩ := exists_exponent outer sound.2
        have more : dotted ≠ [] ∨ raised ≠ [] := by
          by_contra neither
          rw [not_or, not_not, not_not] at neither
          rw [neither.1, neither.2] at denoted
          cases denoted
        rw [Parts.form_decimal more, List.append_assoc]
        exact .float ((numeral_iff (by decide)).mpr ⟨sound.1.1, rfl⟩) isFraction isExponent more

/-- A literal without its sign begins with a decimal digit. -/
theorem Unsigned.exists_first {text : List Char} {form : Form} (unsigned : Unsigned text form) :
    ∃ c v rest, text = c :: rest ∧ Digit 10 c v := by
  rcases unsigned with magnitude | ⟨digits, -, -, -⟩
  · exact magnitude.exists_first
  · obtain ⟨c, v, rest, rfl, digit⟩ := digits.exists_first
    exact ⟨c, v, _, rfl, digit⟩

/-- A text is judged to be a literal exactly if it is one, and of the same form. -/
theorem form?_eq_some_iff {text : List Char} {form : Form} :
    form? text = some form ↔ Written text form := by
  have judged : form? text = some form
      ↔ (split text).2.wellFormed = true ∧ (split text).2.form = form := by
    simp only [form?, Option.ite_none_right_eq_some, Option.some.injEq]
  rw [judged]
  constructor
  · fun_cases split text with
    | case1 unsigned => exact fun sound => .minus (unsigned_iff.mpr sound)
    | case2 => exact fun sound => .plain (unsigned_iff.mpr sound)
  · rintro (unsigned | unsigned)
    · rw [split_of_digit unsigned.exists_first]
      exact unsigned_iff.mp unsigned
    · exact unsigned_iff.mp unsigned

end Literal.Number

namespace Reading

open Literal.Number

/-! ## Where a number ends -/

/-- A digit is a letter or a figure. The hexadecimal digits include all others, so it is enough
to look through them. -/
theorem isWord_of_digit {radix : Nat} {c : Char} {v : Nat} (small : radix ≤ 16)
    (digit : Digit radix c v) : isWord c = true := by
  have table : ∀ n < 128, (digit? 16 (Char.ofNat n)).isSome → isWord (Char.ofNat n) = true := by
    decide +kernel
  have found := ((digit?_eq_some_iff_below small).mp ((digit?_eq_some_iff small).mpr digit)).2
  exact forall_ascii (p := fun c => (digit? 16 c).isSome → isWord c = true) table digit.ascii
    (Option.isSome_of_eq_some found)

/-- Grouped digits and the marks between them are all characters that a word can have. -/
theorem isWord_of_grouped {radix : Nat} {text : List Char} {values : List Nat} (small : radix ≤ 16)
    (grouped : Grouped radix text values) : ∀ c ∈ text, isWord c = true := by
  intro c member
  rcases grouped.mem c member with rfl | ⟨v, digit⟩
  · rfl
  · exact isWord_of_digit small digit

section Tail

variable {last c : Char} {dotted hexadecimal : Bool} {text rest more : List Char}

/-- A letter, digit or underscore is taken by itself, unless it is an exponent mark
of a decimal number with a sign behind it. -/
theorem numberTail_word (word : isWord c = true)
    (unsigned : (hexadecimal || ((c == 'x' || c == 'X') && last == '0')) = true
      ∨ isExponentMark c = false ∨ ∀ sign ∈ rest.head?, (sign == '+' || sign == '-') = false) :
    numberTail last dotted hexadecimal (c :: rest)
      = let tail := numberTail c dotted
          (hexadecimal || ((c == 'x' || c == 'X') && last == '0')) rest
        (c :: tail.1, tail.2) := by
  cases rest with
  | nil => simp [numberTail, word]
  | cons sign after =>
    rw [numberTail, if_pos word]
    have plain : ¬ (!(hexadecimal || ((c == 'x' || c == 'X') && last == '0')) && isExponentMark c
        && (sign == '+' || sign == '-')) = true := by
      rcases unsigned with marked | plain | unsigned
      · simp [marked]
      · simp [plain]
      · simp [unsigned sign rfl]
    simp only [if_neg plain]

/-- A sign behind an exponent mark of a decimal number is taken with it. -/
theorem numberTail_sign {sign : Char} (mark : c = 'e' ∨ c = 'E') (signed : sign = '+' ∨ sign = '-') :
    numberTail last dotted false (c :: sign :: rest)
      = let tail := numberTail sign dotted false rest
        (c :: sign :: tail.1, tail.2) := by
  rcases mark with rfl | rfl
  · rcases signed with rfl | rfl <;> rw [numberTail] <;> rfl
  · rcases signed with rfl | rfl <;> rw [numberTail] <;> rfl

/-- A point before a digit is taken, and from then on no further point is. -/
theorem numberTail_dot :
    numberTail last false false ('.' :: rest)
      = let tail := numberTail '.' true false rest
        ('.' :: tail.1, tail.2) := by
  rw [numberTail]
  rfl

/-- The tail of a number stops before a character that no word has and that is no point. -/
theorem numberTail_stop (apart : ∀ c ∈ more.head?, isWord c = false ∧ c ≠ '.') :
    numberTail last dotted hexadecimal more = ([], more) := by
  cases more with
  | nil => rfl
  | cons c rest =>
    obtain ⟨noWord, noDot⟩ := apart c rfl
    rw [numberTail, if_neg (by simp [noWord]), if_neg (by simp [noDot])]

end Tail

/-- Whatever was taken last and whatever follows, the text is taken whole. Before
it the number is dotted or hexadecimal as the first two values say, behind it as
the other two do. -/
def Passes (dotted hexadecimal : Bool) (text : List Char) (dotted' hexadecimal' : Bool) : Prop :=
  ∀ last more, ∃ next,
    numberTail last dotted hexadecimal (text ++ more)
      = (text ++ (numberTail next dotted' hexadecimal' more).1,
        (numberTail next dotted' hexadecimal' more).2)

namespace Passes

variable {dotted hexadecimal dotted' hexadecimal' dotted'' hexadecimal'' : Bool}
  {text others : List Char}

/-- An empty text is passed. -/
theorem nil : Passes dotted hexadecimal [] dotted hexadecimal :=
  fun last _ => ⟨last, rfl⟩

/-- Texts that are passed are passed one behind the other. -/
theorem append (first : Passes dotted hexadecimal text dotted' hexadecimal')
    (second : Passes dotted' hexadecimal' others dotted'' hexadecimal'') :
    Passes dotted hexadecimal (text ++ others) dotted'' hexadecimal'' := by
  intro last more
  obtain ⟨middle, taken⟩ := first last (others ++ more)
  obtain ⟨next, later⟩ := second middle more
  refine ⟨next, ?_⟩
  rw [List.append_assoc, taken, later, List.append_assoc]

/-- Letters, digits and underscores are passed that neither are exponent marks nor
announce hexadecimal digits; within hexadecimal digits all are.

Proof: by induction on the text. At such a character the reader is neither in front of a sign
nor between the two notations, so it passes on as it was. -/
theorem of_steady
    (steady : ∀ c ∈ text, isWord c = true
      ∧ (hexadecimal = true ∨ isExponentMark c = false ∧ (c == 'x') = false ∧ (c == 'X') = false)) :
    Passes dotted hexadecimal text dotted hexadecimal := by
  induction text with
  | nil => exact nil
  | cons c rest ih =>
    rw [List.forall_mem_cons] at steady
    obtain ⟨⟨word, plain⟩, later⟩ := steady
    intro last more
    obtain ⟨next, taken⟩ := ih later c more
    refine ⟨next, ?_⟩
    have same : (hexadecimal || ((c == 'x' || c == 'X') && last == '0')) = hexadecimal := by
      rcases plain with rfl | ⟨-, small, capital⟩
      · rfl
      · rw [small, capital, Bool.or_self, Bool.false_and, Bool.or_false]
    have unsigned : (hexadecimal || ((c == 'x' || c == 'X') && last == '0')) = true
        ∨ isExponentMark c = false
        ∨ ∀ sign ∈ (rest ++ more).head?, (sign == '+' || sign == '-') = false := by
      rw [same]
      exact plain.imp_right fun decimal => .inl decimal.1
    rw [List.cons_append, numberTail_word word unsigned, same, taken]
    rfl

/-- Decimal digits are passed: none of them is a mark behind which a sign would be looked
for. -/
theorem numeral {n : Nat} (digits : Numeral 10 text n) : Passes dotted false text dotted false := by
  obtain ⟨values, grouped, -⟩ := digits
  apply of_steady
  intro c member
  obtain ⟨noMark, -, noSign⟩ := grouped.decimal_mem c member
  exact ⟨isWord_of_grouped (by decide) grouped c member, .inr ⟨noMark, noSign⟩⟩

/-- A fraction is passed, with its point. Behind it no further point is taken. -/
theorem fraction (written : Fraction text) : ∃ dotted, Passes false false text dotted false := by
  cases written with
  | absent => exact ⟨false, nil⟩
  | present digits =>
    refine ⟨true, ?_⟩
    intro last more
    obtain ⟨next, taken⟩ := numeral digits '.' more
    refine ⟨next, ?_⟩
    rw [List.cons_append, numberTail_dot, taken]
    rfl

/-- An exponent is passed with its sign, if it has one. The sign is taken since a mark stands
before it, and a digit is taken in any case. -/
theorem exponent (written : Exponent text) : Passes dotted false text dotted false := by
  cases written with
  | absent => exact nil
  | @present mark sign digits n marked signed numeral =>
    intro last more
    have word : isWord mark = true := by rcases marked with rfl | rfl <;> rfl
    have decimal : (false || ((mark == 'x' || mark == 'X') && last == '0')) = false := by
      rcases marked with rfl | rfl <;> rfl
    rcases signed with rfl | signed
    · obtain ⟨c, v, rest, rfl, digit⟩ := numeral.exists_first
      obtain ⟨next, taken⟩ := Passes.numeral numeral mark more
      refine ⟨next, ?_⟩
      -- A digit follows the mark, and no sign is looked for behind it.
      have unsigned : (c == '+' || c == '-') = false := by
        have found := (digit?_eq_some_iff (by decide)).mpr digit
        rw [Bool.or_eq_false_iff, beq_eq_false_iff_ne, beq_eq_false_iff_ne]
        constructor
        · rintro rfl
          exact nomatch found
        · rintro rfl
          exact nomatch found
      have follows : ∀ sign ∈ (c :: (rest ++ more)).head?, (sign == '+' || sign == '-') = false := by
        rintro sign ⟨⟩
        exact unsigned
      rw [List.nil_append, List.cons_append, List.cons_append,
        numberTail_word word (.inr (.inr follows)), decimal, ← List.cons_append, taken]
      rfl
    · obtain ⟨plus, rfl, isSign⟩ : ∃ plus, sign = [plus] ∧ (plus = '+' ∨ plus = '-') := by
        rcases signed with rfl | rfl
        · exact ⟨'+', rfl, .inl rfl⟩
        · exact ⟨'-', rfl, .inr rfl⟩
      obtain ⟨next, taken⟩ := Passes.numeral numeral plus more
      refine ⟨next, ?_⟩
      rw [List.cons_append, List.singleton_append, List.cons_append, numberTail_sign marked isSign,
        taken]
      rfl

/-- Behind `0x` a number is hexadecimal to its end. -/
theorem hexadecimalDigits {mark : Char} {n : Nat} (marked : mark = 'x' ∨ mark = 'X')
    (digits : Numeral 16 text n) : Passes dotted false ('0' :: mark :: text) dotted true := by
  obtain ⟨values, grouped, -⟩ := digits
  have inside : Passes dotted true text dotted true :=
    of_steady fun c member => ⟨isWord_of_grouped (by decide) grouped c member, .inl rfl⟩
  intro last more
  obtain ⟨next, taken⟩ := inside mark more
  refine ⟨next, ?_⟩
  have word : isWord mark = true := by rcases marked with rfl | rfl <;> rfl
  have announced : (false || ((mark == 'x' || mark == 'X') && '0' == '0')) = true := by
    rcases marked with rfl | rfl <;> rfl
  rw [List.cons_append, List.cons_append, numberTail_word (by decide) (.inr (.inl rfl)),
    show (false || (('0' == 'x' || '0' == 'X') && last == '0')) = false from rfl,
    numberTail_word word (.inl announced), announced, taken]
  rfl

/-- A literal without a sign is passed whole. -/
theorem unsigned {form : Form} (written : Unsigned text form) :
    ∃ dotted hexadecimal, Passes false false text dotted hexadecimal := by
  rcases written with (digits | ⟨marked, digits⟩) | ⟨digits, isFraction, isExponent, -⟩
  · exact ⟨false, false, numeral digits⟩
  · exact ⟨false, true, hexadecimalDigits marked digits⟩
  · obtain ⟨dotted, passed⟩ := fraction isFraction
    exact ⟨dotted, false, (numeral digits).append (passed.append (exponent isExponent))⟩

end Passes

/-! ## Reading a literal -/

/-- A literal without its sign is the tail of a number, where something else follows. It is
passed as a whole, and the tail stops behind it. -/
theorem numberTail_of_unsigned {text rest : List Char} {form : Form} (written : Unsigned text form)
    (apart : ∀ c ∈ rest.head?, isWord c = false ∧ c ≠ '.') (last : Char) :
    numberTail last false false (text ++ rest) = (text, rest) := by
  obtain ⟨dotted, hexadecimal, passed⟩ := Passes.unsigned written
  obtain ⟨next, taken⟩ := passed last rest
  rw [taken, numberTail_stop apart, List.append_nil]

/-- The same from the second character on, which is where reading a tail begins. Behind a minus
sign that is the whole unsigned literal, and otherwise what follows its first digit. -/
theorem numberTail_of_written {c : Char} {text rest : List Char} {form : Form}
    (written : Written (c :: text) form) (apart : ∀ c ∈ rest.head?, isWord c = false ∧ c ≠ '.') :
    numberTail c false false (text ++ rest) = (text, rest) := by
  cases written with
  | minus unsigned => exact numberTail_of_unsigned unsigned apart '-'
  | plain unsigned =>
    -- The first digit is taken before the tail; it is put back to see the literal whole.
    obtain ⟨_, v, _, same, digit⟩ := unsigned.exists_first
    cases same
    have whole := numberTail_of_unsigned unsigned apart '-'
    have single : Grouped 10 [c] [v] := .single digit
    obtain ⟨noMark, -, small, capital⟩ := single.decimal_mem c List.mem_cons_self
    rw [List.cons_append, numberTail_word (isWord_of_digit (by decide) digit) (.inr (.inl noMark)),
      small, capital] at whole
    simp only [Prod.mk.injEq, List.cons.injEq, true_and] at whole
    exact Prod.ext whole.1 whole.2

/-- What begins with a digit, or with a minus sign and a digit, is read as a number.

Proof: a digit begins nothing else that can be read. Digits are in ASCII, so this is looked up
for each of its characters. A minus sign in front of a digit begins a number only. -/
theorem read_eq_number {c : Char} {rest : List Char}
    (first : (∃ v, Digit 10 c v) ∨ c = '-' ∧ ∃ d v more, rest = d :: more ∧ Digit 10 d v) :
    read c rest = number c rest := by
  have table : ∀ n < 128, (digit? 10 (Char.ofNat n)).isSome →
      Punct.ofChar? (Char.ofNat n) = none ∧ Char.ofNat n ≠ '/' ∧ Char.ofNat n ≠ '"'
        ∧ Text.isBlank (Char.ofNat n) = false ∧ startsIdentifier (Char.ofNat n) = false
        ∧ (Char.ofNat n).isDigit = true := by decide +kernel
  have digits : ∀ {c : Char} {v : Nat}, Digit 10 c v → Punct.ofChar? c = none ∧ c ≠ '/' ∧ c ≠ '"'
      ∧ Text.isBlank c = false ∧ startsIdentifier c = false ∧ c.isDigit = true := by
    intro c v digit
    exact forall_ascii (p := fun c => (digit? 10 c).isSome → Punct.ofChar? c = none ∧ c ≠ '/'
      ∧ c ≠ '"' ∧ Text.isBlank c = false ∧ startsIdentifier c = false ∧ c.isDigit = true) table
      digit.ascii (Option.isSome_of_eq_some ((digit?_eq_some_iff (by decide)).mpr digit))
  rcases first with ⟨v, digit⟩ | ⟨rfl, d, v, more, rfl, digit⟩
  · obtain ⟨noMark, noSlash, noQuote, noBlank, noLetter, isDigit⟩ := digits digit
    simp [read, noMark, noSlash, noQuote, noBlank, noLetter, startsNumber, isDigit]
  · obtain ⟨-, -, -, -, -, isDigit⟩ := digits digit
    have starts : startsNumber '-' (d :: more) = true := by
      simp [startsNumber, isDigit]
    have noMark : Punct.ofChar? '-' = none := rfl
    have noBlank : Text.isBlank '-' = false := by decide
    have noLetter : startsIdentifier '-' = false := by decide
    simp [read, noMark, noBlank, noLetter, starts]

end Reading

/-- The kind of the tokens that have a form. -/
def Literal.Number.Form.kind : Form → TokenKind
  | .integer => .integer
  | .float => .float

namespace Reading

open Literal.Number

/-- A literal is read as one token of its form, without a fault. -/
theorem read_of_written {c : Char} {text rest : List Char} {form : Form}
    (written : Written (c :: text) form) (apart : ∀ c ∈ rest.head?, isWord c = false ∧ c ≠ '.') :
    read c (text ++ rest) = ⟨form.kind, c :: text, none, rest⟩ := by
  have judged : form? (c :: text) = some form := form?_eq_some_iff.mpr written
  have kind : numberKind (c :: text) = form.kind := by
    rw [numberKind, judged]
    cases form <;> rfl
  have fault : numberFault? (c :: text) = none := by
    rw [numberFault?, judged]
    rfl
  rw [read_eq_number, number, numberTail_of_written written apart]
  · simp only [kind, fault]
  · cases written with
    | plain unsigned =>
      obtain ⟨_, v, _, same, digit⟩ := unsigned.exists_first
      cases same
      exact .inl ⟨v, digit⟩
    | minus unsigned =>
      obtain ⟨d, v, more, rfl, digit⟩ := unsigned.exists_first
      exact .inr ⟨rfl, d, v, _, rfl, digit⟩

/-- The fault of a number token is the one that its lexeme has. Reading a number adds none. -/
theorem fault_of_isNumber {c : Char} {rest : List Char}
    (isNumber : (read c rest).kind.isNumber = true) :
    (read c rest).fault = numberFault? (read c rest).lexeme := by
  have literal : ((read c rest).kind.isNumber || (read c rest).kind == .string) = true := by
    rw [isNumber, Bool.true_or]
  rcases read_of_literal literal with same | ⟨-, same⟩
  · rw [same]
    rfl
  · rw [same] at isNumber
    exact nomatch isNumber

end Reading

open Literal.Number

/-- A token of a number has the fault of its text. -/
theorem Token.IsRead.fault_of_isNumber {t : Token} (read : t.IsRead)
    (isNumber : t.kind.isNumber = true) : t.fault = Reading.numberFault? t.lexeme.toList := by
  obtain ⟨c, rest, p, rfl⟩ := read
  rw [Reading.tokenAt, String.toList_ofList]
  exact Reading.fault_of_isNumber isNumber

/-- A literal has a first character. -/
theorem Literal.Number.Written.exists_cons {text : List Char} {form : Form}
    (written : Written text form) : ∃ c rest, text = c :: rest := by
  cases written with
  | plain unsigned =>
    obtain ⟨c, _, rest, same, -⟩ := unsigned.exists_first
    exact ⟨c, rest, same⟩
  | minus _ => exact ⟨_, _, rfl⟩

/-- A number literal is read as one token of its form without a fault, if nothing
follows that could continue it. A token of a number is faulty exactly if its text
is no number literal, and then that is its fault.

Proof: the tail of a number passes over fraction and exponent and stops where a literal has
ended, so the literal is read whole. The fault of any number token is the one that its text has,
and the test for it agrees with the grammar of literals. -/
theorem number_literals_exact :
    (∀ (w rest : String) (form : Form), Written w.toList form →
        (∀ c ∈ rest.toList.head?, c.isAlphanum = false ∧ c ≠ '_' ∧ c ≠ '.') →
        ∃ others, tokenizeWithTrivia (w ++ rest)
          = ⟨form.kind, w, Span.between .origin (Position.origin.advanceAll w.toList), none⟩
            :: others)
      ∧ ∀ (source : String), ∀ t ∈ tokenizeWithTrivia source, t.kind.isNumber = true →
          (t.fault = some (.malformedNumber t.lexeme) ↔ ¬ ∃ form, Written t.lexeme.toList form)
            ∧ (t.fault = none ↔ ∃ form, Written t.lexeme.toList form) := by
  constructor
  · intro w rest form written apart
    have stops : ∀ c ∈ rest.toList.head?, Reading.isWord c = false ∧ c ≠ '.' := by
      intro c first
      obtain ⟨noLetter, noUnderscore, noDot⟩ := apart c first
      exact ⟨by simp [Reading.isWord, noLetter, noUnderscore], noDot⟩
    obtain ⟨c, tail, text⟩ := written.exists_cons
    have lexeme : String.ofList (c :: tail) = w := by rw [← text, String.ofList_toList]
    have taken := Reading.read_of_written (text ▸ written) stops
    rw [tokenizeWithTrivia, String.toList_append, text, List.cons_append, tokensFrom, taken]
    exact ⟨_, by rw [Reading.tokenAt, lexeme]⟩
  · intro source t member isNumber
    have isRead : t.IsRead := by
      apply isRead_of_mem member
      intro isEnd
      rw [isEnd] at isNumber
      exact Bool.noConfusion isNumber
    have judged : (form? t.lexeme.toList).isSome = true ↔ ∃ form, Written t.lexeme.toList form := by
      simp only [Option.isSome_iff_exists, form?_eq_some_iff]
    rw [isRead.fault_of_isNumber isNumber, Reading.numberFault?, String.ofList_toList, ← judged]
    by_cases literal : (form? t.lexeme.toList).isSome = true
    · simp [literal]
    · simp [literal]

/-- In a hexadecimal literal an `e` is a digit, and a sign behind it is left alone. -/
theorem hexadecimal_e_recognized :
    ∃ others, tokenizeWithTrivia ("-0x1_E" ++ "+1")
      = ⟨.integer, "-0x1_E", ⟨0, 6, 1, 1⟩, none⟩ :: others := by
  have written : Written "-0x1_E".toList .integer := form?_eq_some_iff.mp (by decide +kernel)
  have apart : ∀ c ∈ "+1".toList.head?, c.isAlphanum = false ∧ c ≠ '_' ∧ c ≠ '.' := by
    rintro c ⟨⟩
    decide
  obtain ⟨others, tokens⟩ := number_literals_exact.1 "-0x1_E" "+1" .integer written apart
  exact ⟨others, tokens⟩

end MessageSchema
