import MessageSchema.Proofs.Quotations

/-!
# What becomes of refused escapes

An escape that is refused should stay as it is written when the others are
replaced. The procedure that replaces them does not ask which ones were refused:
behind `\u` and an opening brace it takes all up to the next closing brace, over
several pieces if need be. So the pieces are gathered into stretches, one for each
step of this procedure, and the procedure goes over a text stretch by stretch.

A stretch comes out as it should unless it is misread. There are four ways to be
misread: more digits than are allowed that still make a character, digits with a
plus sign before them or no brace behind, no closing brace at all, which is then
added, and an accepted escape before the closing brace, which is not replaced.
-/

namespace MessageSchema

namespace Literal.Quoted

open Number

/-! ## Stretches -/

namespace Piece

/-- What a piece should come to: its character if it has one, or itself. -/
def kept (piece : Piece) : List Char :=
  match piece.meaning? with
  | some c => [c]
  | none => piece.text

/-- Whether a piece is a `\u` with a brace that is not closed right behind the
digits. -/
def opens : Piece → Bool
  | .broken ('u' :: '\x7b' :: _) => true
  | _ => false

/-- Whether a piece has a closing brace. -/
def closes (piece : Piece) : Bool :=
  piece.text.contains '\x7d'

end Piece

/-- The pieces up to and with the first that has a closing brace, and the others. -/
def throughBrace : List Piece → List Piece × List Piece
  | [] => ([], [])
  | piece :: rest =>
    if piece.closes then ([piece], rest)
    else
      let (before, after) := throughBrace rest
      (piece :: before, after)

/-- Splitting behind a closing brace loses no piece. -/
theorem throughBrace_append (pieces : List Piece) :
    (throughBrace pieces).1 ++ (throughBrace pieces).2 = pieces := by
  fun_induction throughBrace pieces with
  | case1 => rfl
  | case2 piece rest => rfl
  | case3 piece rest _ before after same ih =>
    rw [same] at ih
    rw [List.cons_append, ih]

/-- What is left behind a closing brace is not longer than what there was, so cutting into
stretches comes to an end. -/
theorem throughBrace_length (pieces : List Piece) :
    (throughBrace pieces).2.length ≤ pieces.length := by
  have whole := congrArg List.length (throughBrace_append pieces)
  rw [List.length_append] at whole
  omega

/-- The pieces by the steps in which their text is replaced. -/
def stretches : List Piece → List (List Piece)
  | [] => []
  | piece :: rest =>
    have := throughBrace_length rest
    if piece.opens then (piece :: (throughBrace rest).1) :: stretches (throughBrace rest).2
    else [piece] :: stretches rest
termination_by pieces => pieces.length

/-- The stretches are the pieces, in their order. Each step of the cutting takes its stretch off
the front. -/
theorem flatten_stretches (pieces : List Piece) : (stretches pieces).flatten = pieces := by
  fun_induction stretches pieces with
  | case1 => rfl
  | case2 piece rest _ _ ih => rw [List.flatten_cons, ih, List.cons_append, throughBrace_append]
  | case3 piece rest _ _ ih => rw [List.flatten_cons, ih, List.singleton_append]

/-- The text is taken for the number of the character: its digits, with a plus sign
or without. -/
inductive Numbered : List Char → Char → Prop
  | bare {digits : List Char} {c : Char} (nonempty : digits ≠ [])
      (denoted : Denotes 16 digits c.toNat) : Numbered digits c
  | signed {digits : List Char} {c : Char} (nonempty : digits ≠ [])
      (denoted : Denotes 16 digits c.toNat) : Numbered ('+' :: digits) c

/-- The stretch does not come out as it should, but as the text. -/
inductive Misread : List Piece → List Char → Prop
  | long {digits : List Char} {c : Char} (many : 6 < digits.length) (numbered : Numbered digits c) :
      Misread [.scalar digits] [c]
  | number {digits body brace : List Char} {inner : List Piece} {c : Char}
      (numbered : Numbered body c) (optional : brace = ['\x7d'] ∨ brace = [])
      (written : digits ++ inner.flatMap Piece.text = body ++ brace) :
      Misread (.broken ('u' :: '\x7b' :: digits) :: inner) [c]
  | unclosed {digits : List Char} {inner : List Piece}
      (strange : ∀ c, ¬ Numbered (digits ++ inner.flatMap Piece.text) c)
      (noBrace : '\x7d' ∉ digits ++ inner.flatMap Piece.text) :
      Misread (.broken ('u' :: '\x7b' :: digits) :: inner)
        ('\\' :: 'u' :: '\x7b' :: digits ++ inner.flatMap Piece.text ++ ['\x7d'])
  | escaped {digits body : List Char} {inner : List Piece} {piece : Piece} (inside : piece ∈ inner)
      (replaced : piece.kept ≠ piece.text) (noBrace : '\x7d' ∉ body)
      (written : digits ++ inner.flatMap Piece.text = body ++ ['\x7d']) :
      Misread (.broken ('u' :: '\x7b' :: digits) :: inner)
        ('\\' :: 'u' :: '\x7b' :: digits ++ inner.flatMap Piece.text)

/-! ## Braces -/

/-- If a piece has a closing brace, it ends with it.

Proof: by the kind of the piece. Three kinds can hold a brace, and in these it is the last
character; digits have none. -/
theorem exists_brace {piece : Piece} {pieces : List Piece} (cut : Cut (piece :: pieces))
    (closes : piece.closes = true) :
    ∃ before, piece.text = before ++ ['\x7d'] ∧ '\x7d' ∉ before := by
  rw [Piece.closes, List.contains_iff_mem] at closes
  cases cut with
  | plain _ _ _ _ =>
    cases List.mem_singleton.mp closes
    exact ⟨[], rfl, nofun⟩
  | @letter c _ known _ =>
    have brace : '\x7d' = c := by simpa [Piece.text] using closes
    rw [← brace] at known
    exact Bool.noConfusion known
  | scalar hexadecimal _ =>
    refine ⟨_, rfl, ?_⟩
    simp [noBrace_of_digits hexadecimal]
  | @opened digits _ hexadecimal _ _ =>
    have member : '\x7d' ∈ digits := by simpa [Piece.text] using closes
    exact absurd member (noBrace_of_digits hexadecimal)
  | @unknown c _ _ _ _ _ =>
    have brace : '\x7d' = c := by simpa [Piece.text] using closes
    rw [← brace]
    exact ⟨['\\'], rfl, by decide⟩

/-- The pieces that are taken end with the first closing brace, or there is none
and all are taken.

Proof: by induction on the taking. A piece that is passed over has no brace, and the first that
has one ends with it. -/
theorem throughBrace_text {pieces : List Piece} (cut : Cut pieces) :
    (∃ body, (throughBrace pieces).1.flatMap Piece.text = body ++ ['\x7d'] ∧ '\x7d' ∉ body)
      ∨ '\x7d' ∉ (throughBrace pieces).1.flatMap Piece.text ∧ (throughBrace pieces).2 = [] := by
  fun_induction throughBrace pieces with
  | case1 => exact .inr ⟨nofun, rfl⟩
  | case2 piece rest closes =>
    obtain ⟨before, text, noBrace⟩ := exists_brace cut closes
    exact .inl ⟨before, by rw [List.flatMap_singleton, text], noBrace⟩
  | case3 piece rest noClose before after same ih =>
    have noBrace : '\x7d' ∉ piece.text := by
      rwa [Piece.closes, List.contains_iff_mem] at noClose
    have later := ih cut.tail
    rw [same] at later
    rcases later with ⟨body, text, absent⟩ | ⟨absent, all⟩
    · refine .inl ⟨piece.text ++ body, ?_, ?_⟩
      · rw [List.flatMap_cons, text, List.append_assoc]
      · rw [List.mem_append, not_or]
        exact ⟨noBrace, absent⟩
    · refine .inr ⟨?_, all⟩
      rw [List.flatMap_cons, List.mem_append, not_or]
      exact ⟨noBrace, absent⟩

/-! ## One step of the replacement -/

/-- A backslash before a character that no escape begins with stays, and replacing goes on
behind the two. So does one before a `u` that no brace follows. -/
theorem decodeInside_unknown {c : Char} {rest : List Char} (strange : letterEscape? c = none)
    (notOpened : c = 'u' → rest.head? ≠ some '\x7b') :
    decodeInside ('\\' :: c :: rest) = '\\' :: c :: decodeInside rest := by
  rw [decodeInside, strange]
  rintro more letter rfl
  exact notOpened letter rfl

/-- Without a closing brace all that is left is taken as if there were one. -/
theorem decodeInside_unclosed {body : List Char} (noBrace : '\x7d' ∉ body) :
    decodeInside ('\\' :: 'u' :: '\x7b' :: body) = braced body := by
  have all := forall_ne_brace noBrace
  have taken : body.takeWhile (· != '\x7d') = body := List.takeWhile_eq_self_iff.mpr all
  have after : afterBrace body = [] := by
    rw [afterBrace, List.dropWhile_eq_nil_iff.mpr all, List.drop_nil]
  rw [decodeInside, braced]
  simp only [taken, after]
  cases (hexadecimal? body).bind scalar? with
  | some c => rw [decodeInside]
  | none => rw [decodeInside]

/-- An escape with an opening and a closing brace is replaced according to what is between
them. -/
theorem decodeInside_closed {body : List Char} (noBrace : '\x7d' ∉ body) :
    decodeInside ('\\' :: 'u' :: '\x7b' :: body ++ ['\x7d']) = braced body := by
  rw [decodeInside_braced noBrace, decodeInside, List.append_nil]

/-- Digits are read as a number exactly if there are some and they spell it. -/
theorem digits_read_iff {digits : List Char} {n : Nat} :
    (if !digits.isEmpty && digits.all (isDigit 16) then some (value 16 digits) else none) = some n
      ↔ digits ≠ [] ∧ Denotes 16 digits n := by
  rw [denotes_iff (by decide)]
  simp [and_assoc]

/-- What is read as the number of a character. -/
theorem numbered_iff {body : List Char} {c : Char} :
    (hexadecimal? body).bind scalar? = some c ↔ Numbered body c := by
  have step : (hexadecimal? body).bind scalar? = some c ↔ hexadecimal? body = some c.toNat := by
    simp only [Option.bind_eq_some_iff, scalar?_eq_some_iff, exists_eq_right']
  rw [step]
  constructor
  · intro read
    by_cases plus : ∃ digits, body = '+' :: digits
    · obtain ⟨digits, rfl⟩ := plus
      obtain ⟨nonempty, denoted⟩ := digits_read_iff.mp read
      exact .signed nonempty denoted
    · rw [hexadecimal?] at read
      · obtain ⟨nonempty, denoted⟩ := digits_read_iff.mp read
        exact .bare nonempty denoted
      · exact fun digits same => plus ⟨digits, same⟩
  · rintro (⟨nonempty, denoted⟩ | ⟨nonempty, denoted⟩)
    · obtain ⟨hexadecimal, same⟩ := (denotes_iff (by decide)).mp denoted
      rw [hexadecimal?_of_digits nonempty hexadecimal, same]
    · exact digits_read_iff.mpr ⟨nonempty, denoted⟩

/-- What is between the braces is replaced by the character whose number it is. -/
theorem braced_of_numbered {body : List Char} {c : Char} (numbered : Numbered body c) :
    braced body = [c] := by
  rw [braced, numbered_iff.mpr numbered]

/-- What is no number of a character stays as it is, with its braces. -/
theorem braced_of_strange {body : List Char} (strange : ∀ c, ¬ Numbered body c) :
    braced body = '\\' :: 'u' :: '\x7b' :: body ++ ['\x7d'] := by
  have none : (hexadecimal? body).bind scalar? = none := by
    rw [Option.eq_none_iff_forall_ne_some]
    exact fun c read => strange c (numbered_iff.mp read)
  rw [braced, none]

/-- Only digits and a plus sign stand in a number. -/
theorem Numbered.digit_or_plus {body : List Char} {c : Char} (numbered : Numbered body c) :
    ∀ d ∈ body, isDigit 16 d = true ∨ d = '+' := by
  cases numbered with
  | bare _ denoted => exact fun d member => .inl (((denotes_iff (by decide)).mp denoted).1 d member)
  | signed _ denoted =>
    rw [List.forall_mem_cons]
    exact ⟨.inr rfl, fun d member => .inl (((denotes_iff (by decide)).mp denoted).1 d member)⟩

/-- The number of a character holds no closing brace, so none cuts it off too early. -/
theorem Numbered.noBrace {body : List Char} {c : Char} (numbered : Numbered body c) :
    '\x7d' ∉ body := by
  intro member
  exact absurd (numbered.digit_or_plus _ member) (by decide)

/-- The number of a character holds no backslash either. -/
theorem Numbered.noBackslash {body : List Char} {c : Char} (numbered : Numbered body c) :
    '\\' ∉ body := by
  intro member
  exact absurd (numbered.digit_or_plus _ member) (by decide)

/-! ## Pieces that are replaced -/

namespace Piece

/-- A piece with a meaning comes to that character. -/
theorem kept_of_meaning {piece : Piece} {c : Char} (means : piece.meaning? = some c) :
    piece.kept = [c] := by
  rw [kept, means]

/-- A piece without a meaning stays as it is written. -/
theorem kept_of_none {piece : Piece} (bad : piece.meaning? = none) : piece.kept = piece.text := by
  rw [kept, bad]

/-- A piece that is replaced is an escape and gets shorter. -/
theorem shorter_of_replaced {piece : Piece} (replaced : piece.kept ≠ piece.text) :
    piece.kept.length < piece.text.length ∧ '\\' ∈ piece.text := by
  cases means : piece.meaning? with
  | none => exact absurd (kept_of_none means) replaced
  | some c =>
    rw [kept_of_meaning means]
    cases piece with
    | plain d => exact absurd rfl replaced
    | letter d => exact ⟨by simp [text], List.mem_cons_self⟩
    | scalar digits => exact ⟨by simp [text], List.mem_cons_self⟩
    | broken escape => cases means

/-- No piece comes to more characters than it is written with. -/
theorem kept_length_le (piece : Piece) : piece.kept.length ≤ piece.text.length := by
  by_cases same : piece.kept = piece.text
  · rw [same]
  · exact (shorter_of_replaced same).1.le

end Piece

/-- Neither do several pieces, by induction on them. -/
theorem kept_length_le (pieces : List Piece) :
    (pieces.flatMap Piece.kept).length ≤ (pieces.flatMap Piece.text).length := by
  induction pieces with
  | nil => exact Nat.le_refl 0
  | cons piece rest ih =>
    have first := piece.kept_length_le
    rw [List.flatMap_cons, List.flatMap_cons, List.length_append, List.length_append]
    omega

/-- A piece that is replaced makes the whole shorter. The others can at best stay as long as
they are. -/
theorem kept_length_lt {piece : Piece} {pieces : List Piece} (inside : piece ∈ pieces)
    (replaced : piece.kept ≠ piece.text) :
    (pieces.flatMap Piece.kept).length < (pieces.flatMap Piece.text).length := by
  obtain ⟨before, after, rfl⟩ := List.append_of_mem inside
  have shorter := (Piece.shorter_of_replaced replaced).1
  have first := kept_length_le before
  have last := kept_length_le after
  simp only [List.flatMap_append, List.flatMap_cons, List.length_append]
  omega

/-! ## Stretches that are misread -/

/-- The text of a stretch that opens a brace begins with the backslash, the `u` and the
brace. -/
theorem text_of_opened (digits : List Char) (inner : List Piece) :
    (Piece.broken ('u' :: '\x7b' :: digits) :: inner).flatMap Piece.text
      = '\\' :: 'u' :: '\x7b' :: (digits ++ inner.flatMap Piece.text) := by
  rw [List.flatMap_cons, Piece.text]
  rfl

namespace Misread

variable {stretch : List Piece} {out : List Char}

/-- This is what becomes of a stretch that is misread.

Proof: by the kind of the stretch. What is between the braces is a number, or it is not, and
with an escape in it it is not: a number has no backslash. -/
theorem decodeInside_eq (misread : Misread stretch out) :
    decodeInside (stretch.flatMap Piece.text) = out := by
  cases misread with
  | long _ numbered =>
    rw [List.flatMap_singleton, Piece.text, decodeInside_closed numbered.noBrace,
      braced_of_numbered numbered]
  | number numbered optional written =>
    rw [text_of_opened, written]
    rcases optional with rfl | rfl
    · exact (decodeInside_closed numbered.noBrace).trans (braced_of_numbered numbered)
    · rw [List.append_nil, decodeInside_unclosed numbered.noBrace, braced_of_numbered numbered]
  | unclosed strange noBrace =>
    rw [text_of_opened, decodeInside_unclosed noBrace, braced_of_strange strange]
    simp
  | @escaped digits body inner piece inside replaced noBrace written =>
    -- The backslash of the escape cannot stand in a number.
    have backslash : '\\' ∈ body := by
      have member : '\\' ∈ digits ++ inner.flatMap Piece.text :=
        List.mem_append_right _ (List.mem_flatMap_of_mem inside (Piece.shorter_of_replaced replaced).2)
      rw [written] at member
      simpa using member
    have strange : ∀ c, ¬ Numbered body c := fun c numbered => numbered.noBackslash backslash
    have taken := (decodeInside_closed noBrace).trans (braced_of_strange strange)
    rw [text_of_opened, List.cons_append, List.cons_append, List.cons_append, written]
    exact taken

/-- It is not what the stretch should come to.

Proof: by lengths. In each kind of misread stretch, what comes out is shorter or longer than
what should. -/
theorem ne_kept (misread : Misread stretch out) : out ≠ stretch.flatMap Piece.kept := by
  intro same
  have lengths := congrArg List.length same
  cases misread with
  | @long digits _ many _ =>
    have bad : (Piece.scalar digits).meaning? = none := by
      rw [Piece.meaning?, if_neg]
      simp [many]
    rw [List.flatMap_singleton, Piece.kept_of_none bad] at lengths
    simp [Piece.text] at lengths
  | number numbered optional written =>
    rw [List.flatMap_cons, Piece.kept_of_none rfl] at lengths
    simp only [Piece.text, List.length_append, List.length_cons, List.length_nil] at lengths
    omega
  | @unclosed digits inner strange noBrace =>
    have shorter := kept_length_le (.broken ('u' :: '\x7b' :: digits) :: inner)
    rw [text_of_opened] at shorter
    simp only [List.length_append, List.length_cons, List.length_nil] at shorter lengths
    omega
  | escaped inside replaced _ _ =>
    have shorter := kept_length_lt inside replaced
    rw [List.flatMap_cons, Piece.kept_of_none rfl] at lengths
    simp only [Piece.text, List.length_append, List.length_cons] at lengths
    omega

end Misread

/-! ## Stretch by stretch -/

/-- The stretch is replaced in one step, whatever of the text follows, and comes to
what it should unless it is misread. -/
structure Outcome (stretch : List Piece) (following out : List Char) : Prop where
  step : ∀ text, text <+: following →
    decodeInside (stretch.flatMap Piece.text ++ text) = out ++ decodeInside text
  kept_or_misread : out = stretch.flatMap Piece.kept ∨ Misread stretch out

/-- A piece with a meaning comes to its character. -/
theorem outcome_of_meaning {piece : Piece} {rest : List Piece} {c : Char}
    (cut : Cut (piece :: rest)) (means : piece.meaning? = some c) (following : List Char) :
    Outcome [piece] following [c] := by
  constructor
  · intro text _
    rw [List.flatMap_singleton]
    exact decodeInside_spells (spells_piece cut means)
  · rw [List.flatMap_singleton, Piece.kept_of_meaning means]
    exact .inl rfl

/-- A number of hexadecimal digits that an accepted escape would not have is one of more than
six digits. With six or fewer the escape would have had a meaning, and digits have no sign. -/
theorem Numbered.many_of_bad {digits : List Char} {c : Char} (numbered : Numbered digits c)
    (hexadecimal : ∀ d ∈ digits, isDigit 16 d = true)
    (bad : (Piece.scalar digits).meaning? = none) : 6 < digits.length := by
  by_contra few
  cases numbered with
  | bare nonempty denoted =>
    have same := ((denotes_iff (by decide)).mp denoted).2
    have one := List.length_pos_iff.mpr nonempty
    rw [Piece.meaning?, if_pos (by simp; omega), same, scalar?_eq_some_iff.mpr rfl] at bad
    cases bad
  | signed _ _ => exact Bool.noConfusion (hexadecimal '+' List.mem_cons_self)

/-- A refused escape with its braces is kept, unless it has too many digits. -/
theorem outcome_of_scalar {digits : List Char} (hexadecimal : ∀ c ∈ digits, isDigit 16 c = true)
    (bad : (Piece.scalar digits).meaning? = none) (following : List Char) :
    Outcome [.scalar digits] following (braced digits) := by
  constructor
  · intro text _
    rw [List.flatMap_singleton, Piece.text, List.append_assoc, List.singleton_append]
    exact decodeInside_braced (noBrace_of_digits hexadecimal)
  · by_cases numbered : ∃ c, Numbered digits c
    · obtain ⟨c, numbered⟩ := numbered
      rw [braced_of_numbered numbered]
      exact .inr (.long (numbered.many_of_bad hexadecimal bad) numbered)
    · rw [braced_of_strange (not_exists.mp numbered), List.flatMap_singleton,
        Piece.kept_of_none bad]
      exact .inl rfl

/-- A backslash before a character that begins no escape comes to the two characters themselves,
whatever follows in the text. -/
theorem outcome_of_unknown {c : Char} {following : List Char} (strange : letterEscape? c = none)
    (notOpened : c = 'u' → following.head? ≠ some '\x7b') :
    Outcome [.broken [c]] following ['\\', c] := by
  constructor
  · intro text ahead
    refine decodeInside_unknown strange ?_
    rintro letter (first : text.head? = some '\x7b')
    obtain ⟨more, rfl⟩ := ahead
    refine notOpened letter ?_
    rw [List.head?_append, first]
    rfl
  · exact .inl rfl

/-- A piece by itself. -/
theorem exists_outcome_single {piece : Piece} {rest : List Piece} (cut : Cut (piece :: rest))
    (single : piece.opens = false) : ∃ out, Outcome [piece] (rest.flatMap Piece.text) out := by
  cases means : piece.meaning? with
  | some c => exact ⟨_, outcome_of_meaning cut means _⟩
  | none =>
    cases cut with
    | plain _ _ _ _ => cases means
    | letter known _ =>
      rw [Piece.meaning?] at means
      rw [means] at known
      exact Bool.noConfusion known
    | scalar hexadecimal _ => exact ⟨_, outcome_of_scalar hexadecimal means _⟩
    | opened _ _ _ => exact Bool.noConfusion single
    | unknown strange _ notOpened _ => exact ⟨_, outcome_of_unknown strange notOpened⟩

/-- A stretch that opens a brace and closes it comes to what is made of the text between them.
It is misread if that is the number of a character, or if a piece in it should have been
replaced; otherwise the text stays, and so it should. -/
theorem outcome_of_closed {digits body following : List Char} {inner : List Piece}
    (noBrace : '\x7d' ∉ body)
    (written : digits ++ inner.flatMap Piece.text = body ++ ['\x7d']) :
    Outcome (.broken ('u' :: '\x7b' :: digits) :: inner) following (braced body) := by
  have text : (Piece.broken ('u' :: '\x7b' :: digits) :: inner).flatMap Piece.text
      = '\\' :: 'u' :: '\x7b' :: body ++ ['\x7d'] := by
    rw [text_of_opened, written]
    rfl
  constructor
  · intro more _
    rw [text, List.append_assoc, List.singleton_append]
    exact decodeInside_braced noBrace
  · by_cases numbered : ∃ c, Numbered body c
    · obtain ⟨c, numbered⟩ := numbered
      rw [braced_of_numbered numbered]
      exact .inr (.number numbered (.inl rfl) written)
    · rw [braced_of_strange (not_exists.mp numbered), ← text]
      by_cases replaced : ∃ piece ∈ inner, piece.kept ≠ piece.text
      · obtain ⟨piece, inside, replaced⟩ := replaced
        exact .inr (.escaped inside replaced noBrace written)
      · refine .inl ?_
        push Not at replaced
        rw [List.flatMap_cons, List.flatMap_cons, List.flatMap_congr replaced]
        rfl

/-- A stretch that opens a brace and never closes it goes up to the end of the text, and comes
to what would be made of it with a brace at the end. This is always a misreading. -/
theorem outcome_of_unclosed {digits : List Char} {inner : List Piece}
    (noBrace : '\x7d' ∉ digits ++ inner.flatMap Piece.text) :
    Outcome (.broken ('u' :: '\x7b' :: digits) :: inner) []
      (braced (digits ++ inner.flatMap Piece.text)) := by
  constructor
  · intro text ahead
    rw [List.prefix_nil.mp ahead, List.append_nil, text_of_opened, decodeInside_unclosed noBrace,
      decodeInside, List.append_nil]
  · refine .inr ?_
    by_cases numbered : ∃ c, Numbered (digits ++ inner.flatMap Piece.text) c
    · obtain ⟨c, numbered⟩ := numbered
      rw [braced_of_numbered numbered]
      exact .number numbered (.inr rfl) (List.append_nil _).symm
    · rw [braced_of_strange (not_exists.mp numbered)]
      exact .unclosed (not_exists.mp numbered) noBrace

/-- A piece with a brace that is not closed, and the others up to a closing one. -/
theorem exists_outcome_opened {piece : Piece} {rest : List Piece} (cut : Cut (piece :: rest))
    (opens : piece.opens = true) :
    ∃ out, Outcome (piece :: (throughBrace rest).1)
      ((throughBrace rest).2.flatMap Piece.text) out := by
  cases cut with
  | plain _ _ _ _ => exact nomatch opens
  | letter _ _ => exact nomatch opens
  | scalar _ _ => exact nomatch opens
  | unknown _ _ _ _ => simp [Piece.opens] at opens
  | @opened digits _ hexadecimal _ more =>
    have noBrace := noBrace_of_digits hexadecimal
    rcases throughBrace_text more with ⟨body, text, absent⟩ | ⟨absent, all⟩
    · refine ⟨_, outcome_of_closed (?_ : '\x7d' ∉ digits ++ body) ?_⟩
      · rw [List.mem_append, not_or]
        exact ⟨noBrace, absent⟩
      · rw [text, List.append_assoc]
    · rw [all]
      refine ⟨_, outcome_of_unclosed ?_⟩
      rw [List.mem_append, not_or]
      exact ⟨noBrace, absent⟩

/-- The outcome of a stretch is what its own text comes to, read alone. -/
theorem Outcome.decodeInside_eq {stretch : List Piece} {following out : List Char}
    (outcome : Outcome stretch following out) : decodeInside (stretch.flatMap Piece.text) = out := by
  have alone := outcome.step [] List.nil_prefix
  rwa [List.append_nil, decodeInside, List.append_nil] at alone

/-- What is cut off a text at the end of a piece is cut as the text was. -/
theorem Cut.drop {pieces more : List Piece} (cut : Cut (pieces ++ more)) : Cut more := by
  induction pieces with
  | nil => exact cut
  | cons piece rest ih => exact ih cut.tail

/-- Stretches that are replaced one after the other. -/
inductive Outcomes : List (List Piece) → Prop
  | nil : Outcomes []
  | cons {stretch : List Piece} {more : List (List Piece)} {out : List Char}
      (first : Outcome stretch (more.flatten.flatMap Piece.text) out) (others : Outcomes more) :
      Outcomes (stretch :: more)

/-- Each stretch of a text has its outcome. The induction follows the cutting; a stretch that
opens a brace goes through the next closing brace, and any other one is a single piece. -/
theorem outcomes_stretches {pieces : List Piece} (cut : Cut pieces) :
    Outcomes (stretches pieces) := by
  fun_induction stretches pieces with
  | case1 => exact .nil
  | case2 piece rest _ opens ih =>
    have later : Cut (throughBrace rest).2 := by
      have whole := cut.tail
      rw [← throughBrace_append rest] at whole
      exact whole.drop
    obtain ⟨out, outcome⟩ := exists_outcome_opened cut opens
    rw [← flatten_stretches (throughBrace rest).2] at outcome
    exact .cons outcome (ih later)
  | case3 piece rest _ single ih =>
    obtain ⟨out, outcome⟩ := exists_outcome_single cut (by simpa using single)
    rw [← flatten_stretches rest] at outcome
    exact .cons outcome (ih cut.tail)

/-- The escapes are replaced stretch by stretch. -/
theorem Outcomes.decodeInside_eq {parts : List (List Piece)} (outcomes : Outcomes parts) :
    decodeInside (parts.flatten.flatMap Piece.text)
      = parts.flatMap fun stretch => decodeInside (stretch.flatMap Piece.text) := by
  induction outcomes with
  | nil => rw [List.flatten_nil, List.flatMap_nil, decodeInside, List.flatMap_nil]
  | cons first _ ih =>
    rw [List.flatten_cons, List.flatMap_append, first.step _ List.prefix_rfl, ih, List.flatMap_cons,
      first.decodeInside_eq]

/-- Each stretch comes out as it should or is misread, by induction on the stretches. -/
theorem Outcomes.kept_or_misread {parts : List (List Piece)} (outcomes : Outcomes parts) :
    ∀ stretch ∈ parts, decodeInside (stretch.flatMap Piece.text) = stretch.flatMap Piece.kept
      ∨ Misread stretch (decodeInside (stretch.flatMap Piece.text)) := by
  induction outcomes with
  | nil => exact nofun
  | cons first _ ih =>
    rw [List.forall_mem_cons, first.decodeInside_eq]
    exact ⟨first.kept_or_misread, ih⟩

/-- A stretch comes to what it should exactly if it is not misread. -/
theorem Outcomes.kept_iff {parts : List (List Piece)} (outcomes : Outcomes parts)
    {stretch : List Piece} (member : stretch ∈ parts) :
    decodeInside (stretch.flatMap Piece.text) = stretch.flatMap Piece.kept
      ↔ ∀ out, ¬ Misread stretch out := by
  constructor
  · intro same out misread
    exact misread.ne_kept (misread.decodeInside_eq.symm.trans same)
  · intro never
    rcases outcomes.kept_or_misread stretch member with same | misread
    · exact same
    · exact absurd misread (never _)

end Literal.Quoted

/-! ## Tokens with refused escapes -/

open Literal.Quoted

/-- The pieces of a token of a quoted text. -/
def Token.pieces (t : Token) : List Piece :=
  (scan t.lexeme.toList.tail).pieces

/-- The text of a token with a refused escape is replaced stretch by stretch. A
stretch comes to its pieces with the accepted escapes replaced and the refused ones
kept exactly if it is not misread, and to what the misreading gives otherwise.

Proof: the text of the token is that of its pieces, and the pieces are gathered into the
stretches in which replacing goes over them. Each stretch has its outcome whatever follows it,
and a misread one never comes out as it should, since its outcome has another length. -/
theorem refused_escapes_kept_unless_misread {source : String} {t : Token} {escape : String}
    (member : t ∈ tokenizeWithTrivia source) (kind : t.kind = .string)
    (refused : t.fault = some (.invalidEscape escape)) :
    t.lexeme.toList = '"' :: t.pieces.flatMap Piece.text ++ ['"']
      ∧ (stretches t.pieces).flatten = t.pieces
      ∧ decode t.lexeme.toList
        = (stretches t.pieces).flatMap (fun stretch => decodeInside (stretch.flatMap Piece.text))
      ∧ (∀ stretch ∈ stretches t.pieces,
          (decodeInside (stretch.flatMap Piece.text) = stretch.flatMap Piece.kept
            ↔ ∀ out, ¬ Misread stretch out)
          ∧ ∀ out, Misread stretch out → decodeInside (stretch.flatMap Piece.text) = out)
      ∧ ((∀ stretch ∈ stretches t.pieces, ∀ out, ¬ Misread stretch out) →
          decode t.lexeme.toList = t.pieces.flatMap Piece.kept) := by
  have isRead : t.IsRead := isRead_of_mem member (by rw [kind]; decide)
  obtain ⟨pieces, cut, lexeme, -⟩ := isRead.exists_pieces kind (by simp [refused])
  have same : t.pieces = pieces := by
    rw [Token.pieces, lexeme, List.cons_append, List.tail_cons, scan_of_cut cut]
  have outcomes := outcomes_stretches cut
  have whole := flatten_stretches pieces
  have decoded : decode t.lexeme.toList = (stretches pieces).flatMap fun stretch =>
      decodeInside (stretch.flatMap Piece.text) := by
    rw [lexeme, decode_quoted, ← outcomes.decodeInside_eq, whole]
  rw [same]
  refine ⟨lexeme, whole, decoded, ?_, ?_⟩
  · intro stretch inside
    exact ⟨outcomes.kept_iff inside, fun out misread => misread.decodeInside_eq⟩
  · intro never
    have each : ∀ stretch ∈ stretches pieces,
        decodeInside (stretch.flatMap Piece.text) = stretch.flatMap Piece.kept :=
      fun stretch inside => (outcomes.kept_iff inside).mpr (never stretch inside)
    calc
      decode t.lexeme.toList = (stretches pieces).flatMap fun stretch =>
          stretch.flatMap Piece.kept := decoded.trans (List.flatMap_congr each)
      _ = ((stretches pieces).flatMap id).flatMap Piece.kept := List.flatMap_assoc.symm
      _ = pieces.flatMap Piece.kept := by rw [List.flatMap_id, whole]

/-- A token with two refused escapes and an accepted one. -/
def mixedToken : Token :=
  ⟨.string, "\"\\q\\u\x7bzz\x7d\\n\"", ⟨0, 12, 1, 1⟩, some (.invalidEscape "\\q")⟩

/-- In a token with both accepted and refused escapes, none of them misread, the refused ones
are kept and the others replaced. -/
theorem mixedToken_kept :
    decode mixedToken.lexeme.toList = mixedToken.pieces.flatMap Piece.kept := by
  have member : mixedToken ∈ tokenizeWithTrivia mixedToken.lexeme := by decide +kernel
  obtain ⟨-, -, -, each, kept⟩ := refused_escapes_kept_unless_misread member rfl rfl
  refine kept fun stretch inside => (each stretch inside).1.mp ?_
  revert stretch
  decide +kernel

/-- An escape without its closing brace gets one. -/
theorem open_escape_completed :
    ¬ ∀ (source : String), ∀ t ∈ tokenizeWithTrivia source, t.kind = .string →
        (∃ escape, t.fault = some (.invalidEscape escape)) →
          decode t.lexeme.toList = t.pieces.flatMap Piece.kept := by
  intro kept
  have same := kept "\"\\u\x7bzz\"" ⟨.string, "\"\\u\x7bzz\"", ⟨0, 7, 1, 1⟩,
    some (.invalidEscape "\\u\x7b")⟩ (by decide +kernel) rfl ⟨_, rfl⟩
  revert same
  decide +kernel

end MessageSchema
