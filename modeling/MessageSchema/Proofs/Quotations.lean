import MessageSchema.Proofs.Numerals
import MessageSchema.Proofs.Restart

/-!
# Quoted texts mean what they spell

A quoted text is a list of items between quotes, and each item spells one
character: by itself, by a backslash and a letter, or by `\u` with the number of
the character. Two procedures go over such a text. One looks for its end and
judges its escapes, the other one, which gets the text with its quotes later on,
replaces the escapes. Neither calls the other.

They agree on the items: a text made of items is taken whole and without a fault,
and what is made of it are the characters that the items spell. And what is taken
without a fault is made of items. Both go through the pieces that the first
procedure cuts: `Cut` says which pieces these can be and in which order.
-/

namespace MessageSchema

namespace Literal.Quoted

open Number

/-! ## Items -/

/-- The text is an item of a quoted text and spells the character. -/
inductive Spells : List Char → Char → Prop
  | plain {c : Char} (noQuote : c ≠ '"') (noBackslash : c ≠ '\\') (noNewline : c ≠ '\n') :
      Spells [c] c
  | quote : Spells ['\\', '"'] '"'
  | backslash : Spells ['\\', '\\'] '\\'
  | newline : Spells ['\\', 'n'] '\n'
  | carriageReturn : Spells ['\\', 'r'] '\r'
  | tab : Spells ['\\', 't'] '\t'
  | null : Spells ['\\', '0'] '\x00'
  | apostrophe : Spells ['\\', '\''] '\''
  | scalar {digits : List Char} {c : Char} (nonempty : 1 ≤ digits.length) (few : digits.length ≤ 6)
      (denoted : Denotes 16 digits c.toNat) :
      Spells ('\\' :: 'u' :: '\x7b' :: digits ++ ['\x7d']) c

/-- An item with the character that it spells. -/
structure Item where
  text : List Char
  meaning : Char
  spelled : Spells text meaning

/-- Items between quotes. -/
def enclosed (items : List Item) : List Char :=
  '"' :: items.flatMap Item.text ++ ['"']

/-! ## Pieces -/

/-- Pieces that can be cut from a text with a quote behind it, in this order. A
refused escape goes on as far as it can. -/
inductive Cut : List Piece → Prop
  | nil : Cut []
  | plain {c : Char} {pieces : List Piece} (noQuote : c ≠ '"') (noBackslash : c ≠ '\\')
      (noNewline : c ≠ '\n') (more : Cut pieces) : Cut (.plain c :: pieces)
  | letter {c : Char} {pieces : List Piece} (known : (letterEscape? c).isSome = true)
      (more : Cut pieces) : Cut (.letter c :: pieces)
  | scalar {digits : List Char} {pieces : List Piece}
      (hexadecimal : ∀ c ∈ digits, isDigit 16 c = true) (more : Cut pieces) :
      Cut (.scalar digits :: pieces)
  | opened {digits : List Char} {pieces : List Piece}
      (hexadecimal : ∀ c ∈ digits, isDigit 16 c = true)
      (stop : ∀ c ∈ (pieces.flatMap Piece.text).head?, isDigit 16 c = false ∧ c ≠ '\x7d')
      (more : Cut pieces) : Cut (.broken ('u' :: '\x7b' :: digits) :: pieces)
  | unknown {c : Char} {pieces : List Piece} (strange : letterEscape? c = none)
      (noNewline : c ≠ '\n')
      (notOpened : c = 'u' → (pieces.flatMap Piece.text).head? ≠ some '\x7b')
      (more : Cut pieces) : Cut (.broken [c] :: pieces)

/-- What is left of a cut without its first piece is a cut. -/
theorem Cut.tail {piece : Piece} {pieces : List Piece} (cut : Cut (piece :: pieces)) :
    Cut pieces := by
  cases cut with
  | plain _ _ _ more => exact more
  | letter _ more => exact more
  | scalar _ more => exact more
  | opened _ _ more => exact more
  | unknown _ _ _ more => exact more

/-- A character with no part in quoting is a piece by itself. -/
theorem scan_plain {c : Char} {rest : List Char} (noQuote : c ≠ '"') (noBackslash : c ≠ '\\')
    (noNewline : c ≠ '\n') : scan (c :: rest) = (scan rest).prepend (.plain c) := by
  rw [scan]
  · exact noQuote
  · exact noNewline
  · exact noBackslash

/-- At a backslash the escape is taken off, and going on behind it gives the rest. -/
theorem scan_escape {rest after : List Char} {piece : Piece} (taken : escape rest = (piece, after)) :
    scan ('\\' :: rest) = (scan after).prepend piece := by
  rw [scan, taken]

/-- What is taken of digits with something else behind them. -/
theorem span_of_stop {p : Char → Bool} {digits more : List Char} (all : ∀ c ∈ digits, p c = true)
    (stop : ∀ c ∈ more.head?, p c = false) :
    (digits ++ more).takeWhile p = digits ∧ (digits ++ more).dropWhile p = more := by
  rw [List.takeWhile_append_of_pos all, List.dropWhile_append_of_pos all]
  cases more with
  | nil => exact ⟨List.append_nil _, rfl⟩
  | cons c rest =>
    have fails := stop c rfl
    simp [fails]

/-- Digits between braces are taken whole. The closing brace is no digit, so they end there. -/
theorem escape_scalar {digits : List Char} (hexadecimal : ∀ c ∈ digits, isDigit 16 c = true)
    (more : List Char) :
    escape ('u' :: '\x7b' :: digits ++ '\x7d' :: more) = (.scalar digits, more) := by
  have stop : ∀ c ∈ ('\x7d' :: more).head?, isDigit 16 c = false := by
    rintro c ⟨⟩
    rfl
  obtain ⟨taken, left⟩ := span_of_stop hexadecimal stop
  rw [List.cons_append, List.cons_append, escape, taken, left]
  rfl

/-- Where the digits end without a closing brace, the escape is broken off behind them. -/
theorem escape_opened {digits more : List Char} (hexadecimal : ∀ c ∈ digits, isDigit 16 c = true)
    (stop : ∀ c ∈ more.head?, isDigit 16 c = false ∧ c ≠ '\x7d') :
    escape ('u' :: '\x7b' :: digits ++ more) = (.broken ('u' :: '\x7b' :: digits), more) := by
  obtain ⟨taken, left⟩ := span_of_stop hexadecimal fun c first => (stop c first).1
  rw [List.cons_append, List.cons_append, escape, taken, left]
  cases more with
  | nil => rfl
  | cons c rest =>
    have noBrace := (stop c rfl).2
    split
    · rename_i same
      exact absurd (List.cons.inj same).1 noBrace
    · rfl

/-- What is asked of a first character is asked of a quote, too, where the text before the quote
is empty. -/
theorem forall_head?_append_quote {p : Char → Prop} {text : List Char} (quote : p '"')
    (first : ∀ c ∈ text.head?, p c) (rest : List Char) :
    ∀ c ∈ (text ++ '"' :: rest).head?, p c := by
  cases text with
  | nil =>
    rintro c ⟨⟩
    exact quote
  | cons d others => exact first

/-- Pieces that can be cut are cut, whatever follows the quote.

Proof: by induction on the cut, one case for each kind of piece. What follows a piece is the
next piece or the quote, and neither can prolong it. -/
theorem scan_of_cut {pieces : List Piece} (cut : Cut pieces) (rest : List Char) :
    scan (pieces.flatMap Piece.text ++ '"' :: rest) = ⟨pieces, true, rest⟩ := by
  induction cut with
  | nil => rw [List.flatMap_nil, List.nil_append, scan]
  | @plain c pieces noQuote noBackslash noNewline _ ih =>
    have taken : scan (c :: (pieces.flatMap Piece.text ++ '"' :: rest)) = _ :=
      scan_plain noQuote noBackslash noNewline
    rw [List.flatMap_cons, List.append_assoc]
    exact taken.trans (by rw [ih, Scan.prepend])
  | @letter c pieces known _ ih =>
    have taken : escape (c :: (pieces.flatMap Piece.text ++ '"' :: rest))
        = (.letter c, pieces.flatMap Piece.text ++ '"' :: rest) := by
      rw [escape_single, if_pos known]
      · rintro rfl
        exact Bool.noConfusion known
      · rintro _ rfl
        exact Bool.noConfusion known
    rw [List.flatMap_cons, List.append_assoc]
    exact (scan_escape taken).trans (by rw [ih, Scan.prepend])
  | @scalar digits pieces hexadecimal _ ih =>
    have taken := escape_scalar hexadecimal (pieces.flatMap Piece.text ++ '"' :: rest)
    rw [List.flatMap_cons, Piece.text, List.append_assoc, List.append_assoc]
    exact (scan_escape taken).trans (by rw [ih, Scan.prepend])
  | @opened digits pieces hexadecimal stop _ ih =>
    have taken := escape_opened hexadecimal
      (forall_head?_append_quote ⟨rfl, by decide⟩ stop rest)
    rw [List.flatMap_cons, List.append_assoc]
    exact (scan_escape taken).trans (by rw [ih, Scan.prepend])
  | @unknown c pieces strange noNewline notOpened _ ih =>
    have taken : escape (c :: (pieces.flatMap Piece.text ++ '"' :: rest))
        = (.broken [c], pieces.flatMap Piece.text ++ '"' :: rest) := by
      rw [escape_single noNewline, if_neg (by simp [strange])]
      intro digits letter brace
      have first : ∀ d ∈ (pieces.flatMap Piece.text).head?, d ≠ '\x7b' := by
        rintro d first rfl
        exact notOpened letter first
      have follows := forall_head?_append_quote (p := fun d => d ≠ '\x7b') (by decide) first rest
      rw [brace] at follows
      exact follows _ rfl rfl
    rw [List.flatMap_cons, List.append_assoc]
    exact (scan_escape taken).trans (by rw [ih, Scan.prepend])

/-- The text behind a closed scan is what it took, a quote, and what it left. -/
theorem text_of_closed {text : List Char} (closed : (scan text).closed = true) :
    text = (scan text).pieces.flatMap Piece.text ++ '"' :: (scan text).rest := by
  have whole := scan_text text
  rw [Scan.text, closed, cond_true, List.append_assoc] at whole
  exact whole.symm

/-- In a closed text the first character of the pieces is that of the text, since closing leaves
nothing of it out. -/
theorem head?_of_closed {text : List Char} (closed : (scan text).closed = true) {c : Char}
    (first : ((scan text).pieces.flatMap Piece.text).head? = some c) : text.head? = some c := by
  rw [text_of_closed closed, List.head?_append, first]
  rfl

/-- One escape more can be cut from a text with a quote ahead.

Proof: by what the escape finds behind the backslash. Digits end where the next character is
none, and a character that is refused is followed by what was left. -/
theorem cut_escape {text : List Char} (closed : (scan (escape text).2).closed = true)
    (more : Cut (scan (escape text).2).pieces) :
    Cut ((escape text).1 :: (scan (escape text).2).pieces) := by
  revert closed more
  fun_cases escape text with
  | case1 =>
    intro closed
    rw [scan] at closed
    exact Bool.noConfusion closed
  | case2 rest =>
    intro closed
    rw [scan] at closed
    exact Bool.noConfusion closed
  | case3 rest digits after found =>
    intro closed more
    exact .scalar (fun c member => List.mem_takeWhile_imp member) more
  | case4 rest digits noBrace =>
    intro closed more
    refine .opened (fun c member => List.mem_takeWhile_imp member) ?_ more
    intro c first
    have left := head?_of_closed closed first
    constructor
    · have stopped := List.head?_dropWhile_not (isDigit 16) rest
      rw [left] at stopped
      simpa using stopped
    · rintro rfl
      obtain ⟨after, same⟩ := List.head?_eq_some_iff.mp left
      exact noBrace after same
  | case5 c rest noNewline notScalar known => exact fun _ more => .letter known more
  | case6 c rest noNewline notScalar strange =>
    intro closed more
    refine .unknown (by simpa using strange) noNewline ?_ more
    rintro rfl first
    obtain ⟨digits, same⟩ := List.head?_eq_some_iff.mp (head?_of_closed closed first)
    exact notScalar digits rfl same

/-- The pieces of a text up to a quote can be cut. -/
theorem cut_of_closed {text : List Char} (closed : (scan text).closed = true) :
    Cut (scan text).pieces := by
  fun_induction scan text with
  | case1 => exact Bool.noConfusion closed
  | case2 rest => exact .nil
  | case3 rest => exact Bool.noConfusion closed
  | case4 rest _ ih => exact cut_escape closed (ih closed)
  | case5 c rest noQuote noNewline noBackslash ih =>
    exact .plain noQuote noBackslash noNewline (ih closed)

/-! ## Pieces with a meaning are items -/

/-- A number is read as the character that has it, and only numbers of characters are read. -/
theorem scalar?_eq_some_iff {n : Nat} {c : Char} : scalar? n = some c ↔ c.toNat = n := by
  rw [scalar?, Option.ite_none_right_eq_some, Option.some.injEq]
  constructor
  · rintro ⟨valid, rfl⟩
    rw [Char.ofNat, dif_pos valid]
    rfl
  · rintro rfl
    exact ⟨c.valid, Char.ofNat_toNat c⟩

/-- A letter behind a backslash spells the character that the table has for it. -/
theorem spells_letter {c meaning : Char} (known : letterEscape? c = some meaning) :
    Spells ['\\', c] meaning := by
  revert known
  fun_cases letterEscape? c with
  | case1 => rintro ⟨⟩; exact .quote
  | case2 => rintro ⟨⟩; exact .backslash
  | case3 => rintro ⟨⟩; exact .apostrophe
  | case4 => rintro ⟨⟩; exact .newline
  | case5 => rintro ⟨⟩; exact .carriageReturn
  | case6 => rintro ⟨⟩; exact .tab
  | case7 => rintro ⟨⟩; exact .null
  | case8 => exact nofun

/-- A piece that has a meaning spells it. The cases are the ways to be cut; what was broken off
has no meaning. -/
theorem spells_piece {piece : Piece} {pieces : List Piece} {c : Char} (cut : Cut (piece :: pieces))
    (means : piece.meaning? = some c) : Spells piece.text c := by
  cases cut with
  | plain noQuote noBackslash noNewline _ =>
    cases means
    exact .plain noQuote noBackslash noNewline
  | letter _ _ => exact spells_letter means
  | scalar hexadecimal _ =>
    rw [Piece.meaning?, Option.ite_none_right_eq_some, Bool.and_eq_true, decide_eq_true_eq,
      decide_eq_true_eq, scalar?_eq_some_iff] at means
    obtain ⟨⟨nonempty, few⟩, same⟩ := means
    exact .scalar nonempty few ((denotes_iff (by decide)).mpr ⟨hexadecimal, same.symm⟩)
  | opened _ _ _ => exact nomatch means
  | unknown _ _ _ _ => exact nomatch means

/-- Every item is cut as one piece, wherever it stands. -/
theorem exists_piece {text : List Char} {c : Char} (spelled : Spells text c) :
    ∃ piece : Piece, piece.text = text ∧ piece.meaning? = some c
      ∧ ∀ {pieces}, Cut pieces → Cut (piece :: pieces) := by
  cases spelled with
  | plain noQuote noBackslash noNewline =>
    exact ⟨.plain c, rfl, rfl, .plain noQuote noBackslash noNewline⟩
  | scalar nonempty few denoted =>
    obtain ⟨hexadecimal, same⟩ := (denotes_iff (by decide)).mp denoted
    refine ⟨.scalar _, rfl, ?_, .scalar hexadecimal⟩
    rw [Piece.meaning?, if_pos (by simp [nonempty, few]), scalar?_eq_some_iff, same]
  | quote => exact ⟨.letter '"', rfl, rfl, .letter rfl⟩
  | backslash => exact ⟨.letter '\\', rfl, rfl, .letter rfl⟩
  | newline => exact ⟨.letter 'n', rfl, rfl, .letter rfl⟩
  | carriageReturn => exact ⟨.letter 'r', rfl, rfl, .letter rfl⟩
  | tab => exact ⟨.letter 't', rfl, rfl, .letter rfl⟩
  | null => exact ⟨.letter '0', rfl, rfl, .letter rfl⟩
  | apostrophe => exact ⟨.letter '\'', rfl, rfl, .letter rfl⟩

/-- A piece is sound exactly if it has a meaning. -/
theorem Piece.isBad_eq_false_iff {piece : Piece} :
    piece.isBad = false ↔ ∃ c, piece.meaning? = some c := by
  rw [Piece.isBad, Option.isNone_eq_false_iff, Option.isSome_iff_exists]

/-- Items can be cut into sound pieces, one for each of them. By induction on the items; an item
does not depend on what follows, but how it is cut does. -/
theorem exists_pieces (items : List Item) :
    ∃ pieces, Cut pieces ∧ pieces.flatMap Piece.text = items.flatMap Item.text
      ∧ ∀ piece ∈ pieces, piece.isBad = false := by
  induction items with
  | nil => exact ⟨[], .nil, rfl, nofun⟩
  | cons item rest ih =>
    obtain ⟨pieces, cut, same, sound⟩ := ih
    obtain ⟨piece, text, means, further⟩ := exists_piece item.spelled
    refine ⟨piece :: pieces, further cut, ?_, ?_⟩
    · rw [List.flatMap_cons, List.flatMap_cons, text, same]
    · rw [List.forall_mem_cons]
      exact ⟨Piece.isBad_eq_false_iff.mpr ⟨_, means⟩, sound⟩

/-- Sound pieces are the texts of items. -/
theorem exists_items {pieces : List Piece} (cut : Cut pieces)
    (sound : ∀ piece ∈ pieces, piece.isBad = false) :
    ∃ items : List Item, items.flatMap Item.text = pieces.flatMap Piece.text := by
  induction pieces with
  | nil => exact ⟨[], rfl⟩
  | cons piece rest ih =>
    rw [List.forall_mem_cons] at sound
    obtain ⟨items, same⟩ := ih cut.tail sound.2
    obtain ⟨c, means⟩ := Piece.isBad_eq_false_iff.mp sound.1
    exact ⟨⟨_, c, spells_piece cut means⟩ :: items, by rw [List.flatMap_cons, List.flatMap_cons, same]⟩

/-! ## What is made of items -/

/-- A character that is no backslash stays. -/
theorem decodeInside_plain {c : Char} {rest : List Char} (noBackslash : c ≠ '\\') :
    decodeInside (c :: rest) = c :: decodeInside rest := by
  rw [decodeInside]
  · exact fun same => absurd same noBackslash
  · exact fun _ same => absurd same noBackslash
  · exact fun _ _ same => absurd same noBackslash

/-- A backslash and a known letter are replaced by what they stand for. -/
theorem decodeInside_letter {c meaning : Char} {rest : List Char}
    (known : letterEscape? c = some meaning) :
    decodeInside ('\\' :: c :: rest) = meaning :: decodeInside rest := by
  rw [decodeInside, known]
  rintro _ rfl
  cases known

/-- Without a closing brace no character ends the search for one. -/
theorem forall_ne_brace {body : List Char} (noBrace : '\x7d' ∉ body) :
    ∀ c ∈ body, (c != '\x7d') = true := by
  intro c member
  rw [bne_iff_ne]
  rintro rfl
  exact noBrace member

/-- What becomes of a text in braces behind `\u`: it is replaced if it is the number
of a character, and kept otherwise. -/
def braced (body : List Char) : List Char :=
  match (hexadecimal? body).bind scalar? with
  | some c => [c]
  | none => '\\' :: 'u' :: '\x7b' :: body ++ ['\x7d']

/-- Behind `\u` and an opening brace, all up to the next closing brace is replaced together. -/
theorem decodeInside_braced {body rest : List Char} (noBrace : '\x7d' ∉ body) :
    decodeInside ('\\' :: 'u' :: '\x7b' :: body ++ '\x7d' :: rest)
      = braced body ++ decodeInside rest := by
  have stop : ∀ c ∈ ('\x7d' :: rest).head?, (c != '\x7d') = false := by
    rintro c ⟨⟩
    rfl
  obtain ⟨taken, left⟩ := span_of_stop (forall_ne_brace noBrace) stop
  have after : afterBrace (body ++ '\x7d' :: rest) = rest := by
    rw [afterBrace, left]
    rfl
  rw [List.cons_append, List.cons_append, List.cons_append, decodeInside, braced]
  simp only [taken, after]
  cases (hexadecimal? body).bind scalar? with
  | some c => rfl
  | none => simp

/-- Hexadecimal digits without a sign before them. -/
theorem hexadecimal?_of_digits {digits : List Char} (nonempty : digits ≠ [])
    (hexadecimal : ∀ c ∈ digits, isDigit 16 c = true) :
    hexadecimal? digits = some (value 16 digits) := by
  have unsigned : ∀ rest, digits = '+' :: rest → False := by
    rintro rest rfl
    exact nomatch hexadecimal '+' List.mem_cons_self
  have test : (!digits.isEmpty && digits.all (isDigit 16)) = true := by
    simpa [nonempty] using hexadecimal
  rw [hexadecimal?, if_pos test]
  exact unsigned

/-- Digits hold no closing brace. -/
theorem noBrace_of_digits {digits : List Char}
    (hexadecimal : ∀ c ∈ digits, isDigit 16 c = true) : '\x7d' ∉ digits :=
  fun member => nomatch hexadecimal _ member

/-- An item comes to the character that it spells. -/
theorem decodeInside_spells {text rest : List Char} {c : Char} (spelled : Spells text c) :
    decodeInside (text ++ rest) = c :: decodeInside rest := by
  cases spelled with
  | plain _ noBackslash _ => exact decodeInside_plain noBackslash
  | scalar nonempty _ denoted =>
    obtain ⟨hexadecimal, same⟩ := (denotes_iff (by decide)).mp denoted
    have number := hexadecimal?_of_digits (List.length_pos_iff.mp nonempty) hexadecimal
    have character : scalar? c.toNat = some c := scalar?_eq_some_iff.mpr rfl
    rw [List.append_assoc, List.singleton_append,
      decodeInside_braced (noBrace_of_digits hexadecimal), braced, number, Option.bind_some, same,
      character]
    rfl
  | quote => exact decodeInside_letter rfl
  | backslash => exact decodeInside_letter rfl
  | newline => exact decodeInside_letter rfl
  | carriageReturn => exact decodeInside_letter rfl
  | tab => exact decodeInside_letter rfl
  | null => exact decodeInside_letter rfl
  | apostrophe => exact decodeInside_letter rfl

/-- Replacing the escapes of items gives the characters that they spell, by induction on the
items. -/
theorem decodeInside_items (items : List Item) :
    decodeInside (items.flatMap Item.text) = items.map Item.meaning := by
  induction items with
  | nil => rw [List.flatMap_nil, decodeInside, List.map_nil]
  | cons item rest ih =>
    rw [List.flatMap_cons, decodeInside_spells item.spelled, ih, List.map_cons]

/-- The quotes around a text are dropped, and no more. -/
theorem decode_quoted (inside : List Char) : decode ('"' :: inside ++ ['"']) = decodeInside inside := by
  rw [decode, List.cons_append, dropOpening, dropClosing, if_pos List.getLast?_concat,
    List.dropLast_concat]

end Literal.Quoted

/-! ## Tokens of quoted texts -/

open Literal.Quoted

namespace Reading

/-- A quote begins a quoted text. -/
theorem read_quote (rest : List Char) : read '"' rest = quoted rest := rfl

/-- Only what begins with a quote becomes a token of a quoted text. -/
theorem quote_of_string {c : Char} {rest : List Char} (kind : (read c rest).kind = .string) :
    c = '"' := by
  have literal : ((read c rest).kind.isNumber || (read c rest).kind == .string) = true := by
    rw [kind]
    rfl
  rcases read_of_literal literal with same | ⟨quote, -⟩
  · have isNumber : (number c rest).kind.isNumber = true := numberKind_isNumber _
    rw [← same, kind] at isNumber
    exact nomatch isNumber
  · exact quote

/-- The token of a quoted text with a quote at its end. -/
theorem quoted_of_cut {pieces : List Piece} (cut : Cut pieces) (rest : List Char) :
    quoted (pieces.flatMap Piece.text ++ '"' :: rest)
      = ⟨.string, '"' :: pieces.flatMap Piece.text ++ ['"'],
        (pieces.find? Piece.isBad).map fun piece => .invalidEscape (String.ofList piece.text),
        rest⟩ := by
  rw [quoted, scan_of_cut cut]
  simp [Scan.text, Scan.firstBad?, Function.comp_def]

end Reading

/-- A token of a quoted text that has an end is made of pieces, and the first bad
one among them is its fault. -/
theorem Token.IsRead.exists_pieces {t : Token} (read : t.IsRead) (kind : t.kind = .string)
    (closed : t.fault ≠ some .unterminatedString) :
    ∃ pieces, Cut pieces ∧ t.lexeme.toList = '"' :: pieces.flatMap Piece.text ++ ['"']
      ∧ t.fault = (pieces.find? Piece.isBad).map fun piece =>
          .invalidEscape (String.ofList piece.text) := by
  obtain ⟨c, rest, p, rfl⟩ := read
  have quote : c = '"' := Reading.quote_of_string kind
  subst quote
  rw [Reading.read_quote] at closed ⊢
  have ended : (scan rest).closed = true := by
    by_contra opened
    exact closed (if_neg opened)
  have cut := cut_of_closed ended
  refine ⟨(scan rest).pieces, cut, ?_⟩
  have whole := text_of_closed ended
  generalize (scan rest).pieces = pieces at cut whole ⊢
  generalize (scan rest).rest = after at whole
  subst whole
  rw [Reading.quoted_of_cut cut]
  exact ⟨String.toList_ofList, rfl⟩

/-- What is between the quotes decides about a token of a quoted text, not what
follows. Items are taken whole and without a fault, and stand for the characters
that they spell; and only items are taken without a fault.

Proof: items can be cut into sound pieces, and the text of a cut is taken whole, so reading and
replacing both go along the pieces. In the other direction a faultless token has sound pieces
only, and each of them spells what an item does. -/
theorem string_literals_agree :
    (∀ (items : List Item) (rest : String),
        (∃ others, tokenizeWithTrivia (String.ofList (enclosed items) ++ rest)
          = ⟨.string, String.ofList (enclosed items),
              Span.between .origin (Position.origin.advanceAll (enclosed items)), none⟩ :: others)
          ∧ decode (enclosed items) = items.map Item.meaning)
      ∧ ∀ (source : String), ∀ t ∈ tokenizeWithTrivia source, t.kind = .string → t.fault = none →
          ∃ items : List Item, t.lexeme = String.ofList (enclosed items) := by
  constructor
  · intro items rest
    obtain ⟨pieces, cut, same, sound⟩ := exists_pieces items
    have faultless : pieces.find? Piece.isBad = none := by
      rw [List.find?_eq_none]
      simpa using sound
    have taken : Reading.read '"' (items.flatMap Item.text ++ '"' :: rest.toList)
        = ⟨.string, enclosed items, none, rest.toList⟩ := by
      rw [Reading.read_quote, ← same, Reading.quoted_of_cut cut, faultless, enclosed, same]
      rfl
    constructor
    · have split : (String.ofList (enclosed items) ++ rest).toList
          = '"' :: (items.flatMap Item.text ++ '"' :: rest.toList) := by
        simp [enclosed]
      rw [tokenizeWithTrivia, split, tokensFrom, taken]
      exact ⟨_, rfl⟩
    · rw [enclosed, decode_quoted, decodeInside_items]
  · intro source t member kind faultless
    have isRead : t.IsRead := isRead_of_mem member (by rw [kind]; decide)
    obtain ⟨pieces, cut, lexeme, fault⟩ := isRead.exists_pieces kind (by simp [faultless])
    have sound : ∀ piece ∈ pieces, piece.isBad = false := by
      rw [faultless, eq_comm, Option.map_eq_none_iff, List.find?_eq_none] at fault
      simpa using fault
    obtain ⟨items, same⟩ := exists_items cut sound
    refine ⟨items, ?_⟩
    rw [enclosed, same, ← lexeme, String.ofList_toList]

end MessageSchema
