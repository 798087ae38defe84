import Mathlib.Data.List.Induction
import MessageSchema.Proofs.Streams
import MessageSchema.Proofs.Spans

/-!
# Real places of a source

A place is recorded as bytes from the beginning, a line and a column. Said of the
text alone, the line is one more than the newlines in front of the place, and the
column is one more than the characters behind the last of them. A span is real if
it lies in the source, begins and ends between two characters, and has the line
and column of its start.

The counters that go along with the reading of tokens give real places, so the
span of every token is real. A token without a newline also has a real place right
behind it, counted from the column where it starts.
-/

namespace MessageSchema

/-! ## Lines and columns of a text -/

/-- The characters of a text that lie within its first `bytes` bytes. -/
def textBefore : Nat → List Char → List Char
  | _, [] => []
  | bytes, c :: rest =>
    if c.utf8Size ≤ bytes then c :: textBefore (bytes - c.utf8Size) rest else []

/-- The line of the place behind a text. -/
def lineBehind (text : List Char) : Nat :=
  1 + text.count '\n'

/-- The column of the place behind a text. -/
def columnBehind (text : List Char) : Nat :=
  1 + (text.reverse.takeWhile (· ≠ '\n')).length

/-- The number of bytes of a text. -/
def byteLength (text : List Char) : Nat :=
  (String.ofList text).utf8ByteSize

/-- Texts one behind the other have the bytes of both. -/
theorem byteLength_append (first second : List Char) :
    byteLength (first ++ second) = byteLength first + byteLength second := by
  rw [byteLength, String.ofList_append, String.utf8ByteSize_append]
  rfl

/-- The bytes of a text are those of its first character and of the rest. -/
theorem byteLength_cons (c : Char) (rest : List Char) :
    byteLength (c :: rest) = c.utf8Size + byteLength rest := by
  rw [byteLength, String.ofList_cons, String.utf8ByteSize_append, String.utf8ByteSize_singleton]
  rfl

/-- Counted by characters, a string has its own number of bytes. -/
theorem byteLength_toList (text : String) : byteLength text.toList = text.utf8ByteSize := by
  rw [byteLength, String.ofList_toList]

/-- The text in front of a place between two characters. -/
theorem textBefore_append (before after : List Char) :
    textBefore (byteLength before) (before ++ after) = before := by
  induction before with
  | nil =>
    cases after with
    | nil => rfl
    | cons c rest =>
      have size : ¬ c.utf8Size ≤ 0 := by
        have := c.utf8Size_pos
        omega
      exact if_neg size
  | cons c rest ih =>
    rw [byteLength_cons, List.cons_append, textBefore, if_pos (Nat.le_add_right _ _),
      Nat.add_sub_cancel_left, ih]

/-- One more character moves the column on by one, and a newline sets it back to the first. -/
theorem columnBehind_concat (text : List Char) (c : Char) :
    columnBehind (text ++ [c]) = if c = '\n' then 1 else columnBehind text + 1 := by
  by_cases newline : c = '\n'
  · simp [columnBehind, newline]
  · simp [columnBehind, newline]
    omega

namespace Position

/-- The column that is counted along a text is the one behind it. By induction from the end of
the text, where the last character decides. -/
theorem column_advanceAll (text : List Char) :
    (origin.advanceAll text).column = columnBehind text := by
  induction text using List.reverseRecOn with
  | nil => rfl
  | append_singleton text c ih =>
    rw [advanceAll_append, advanceAll_cons, advanceAll_nil, columnBehind_concat, ← ih, advance]
    split <;> rfl

/-- The counters that go along with a text count its bytes, its lines and the
characters of its last line. -/
theorem origin_advanceAll (text : List Char) :
    origin.advanceAll text = ⟨byteLength text, lineBehind text, columnBehind text⟩ := by
  obtain ⟨offset, line⟩ := Shift.advanceAll_offset_line origin text
  have bytes : (origin.advanceAll text).offset = byteLength text := offset.trans (Nat.zero_add _)
  rw [← bytes, ← column_advanceAll, lineBehind, ← show origin.line = 1 from rfl, ← line]

/-- On one line only bytes and columns are counted. -/
theorem advanceAll_of_noNewline (p : Position) {text : List Char} (oneLine : '\n' ∉ text) :
    p.advanceAll text = ⟨p.offset + byteLength text, p.line, p.column + text.length⟩ := by
  induction text generalizing p with
  | nil => rfl
  | cons c rest ih =>
    rw [List.mem_cons, not_or] at oneLine
    obtain ⟨notFirst, notLater⟩ := oneLine
    rw [advanceAll_cons, ih _ notLater, advance, if_neg (Ne.symm notFirst), byteLength_cons,
      List.length_cons]
    simp only [mk.injEq, true_and]
    omega

end Position

/-! ## Real spans -/

/-- A span that lies in a source, begins and ends between two characters, and has
the line and the column of its start. -/
structure Span.Real (source : String) (s : Span) : Prop where
  forward : s.start ≤ s.stop
  inside : s.stop ≤ source.utf8ByteSize
  startsBetween : String.Pos.Raw.IsValid source ⟨s.start⟩
  stopsBetween : String.Pos.Raw.IsValid source ⟨s.stop⟩
  line : s.line = lineBehind (textBefore s.start source.toList)
  column : s.column = columnBehind (textBefore s.start source.toList)

/-- Behind any number of characters of a source there is a place between two characters. -/
theorem isValid_byteLength {source : String} {before after : List Char}
    (split : source.toList = before ++ after) :
    String.Pos.Raw.IsValid source ⟨byteLength before⟩ := by
  refine String.Pos.Raw.isValid_iff_exists_append.mpr
    ⟨String.ofList before, String.ofList after, ?_, rfl⟩
  rw [← String.ofList_append, ← split, String.ofList_toList]

namespace Span.Real

variable {source : String} {s t : Span}

/-- A stretch of the source between two counted places. -/
theorem between {before within after : List Char}
    (split : source.toList = before ++ within ++ after) :
    (Span.between (Position.origin.advanceAll before)
      (Position.origin.advanceAll (before ++ within))).Real source := by
  have rest : source.toList = before ++ (within ++ after) := by rw [split, List.append_assoc]
  have front : textBefore (byteLength before) source.toList = before := by
    rw [rest, textBefore_append]
  rw [Position.origin_advanceAll, Position.origin_advanceAll]
  constructor
  case forward =>
    show byteLength before ≤ byteLength (before ++ within)
    rw [byteLength_append]
    omega
  case inside =>
    show byteLength (before ++ within) ≤ _
    rw [← byteLength_toList, split, byteLength_append (before ++ within)]
    omega
  case startsBetween => exact isValid_byteLength rest
  case stopsBetween => exact isValid_byteLength split
  case line => exact congrArg lineBehind front.symm
  case column => exact congrArg columnBehind front.symm

/-- The place at the start of a real one is real. -/
theorem emptyAtStart (real : s.Real source) : s.emptyAtStart.Real source :=
  { real with
    forward := Nat.le_refl _
    inside := Nat.le_trans real.forward real.inside
    stopsBetween := real.startsBetween }

/-- What covers two real spans begins with one of them and ends with one of them.

Proof: the start is that of the span that starts first, with its line and column, and the stop
is the greater one. Both are places between characters. -/
theorem union (first : s.Real source) (second : t.Real source) : (s.union t).Real source := by
  have start : (s.union t).start = if t.start < s.start then t.start else s.start := by
    unfold Span.union
    split <;> rfl
  have stop : (s.union t).stop = max s.stop t.stop := rfl
  constructor
  case forward =>
    have := first.forward
    have := second.forward
    rw [start, stop]
    split <;> omega
  case inside =>
    rw [stop]
    exact Nat.max_le.mpr ⟨first.inside, second.inside⟩
  case startsBetween =>
    rw [start]
    split
    · exact second.startsBetween
    · exact first.startsBetween
  case stopsBetween =>
    rw [stop, Nat.max_def]
    split
    · exact second.stopsBetween
    · exact first.stopsBetween
  case line =>
    unfold Span.union
    split
    · exact second.line
    · exact first.line
  case column =>
    unfold Span.union
    split
    · exact second.column
    · exact first.column

end Span.Real

/-! ## The tokens of a source -/

/-- A token whose text stands in a source where the token says. -/
def Token.StandsIn (source : String) (t : Token) : Prop :=
  ∃ before after, source.toList = before ++ t.lexeme.toList ++ after
    ∧ t.span = Span.between (Position.origin.advanceAll before)
      (Position.origin.advanceAll (before ++ t.lexeme.toList))

namespace Token.StandsIn

variable {source : String} {t : Token}

/-- A token that stands in a source stands at a real place. -/
theorem real (stands : t.StandsIn source) : t.span.Real source := by
  obtain ⟨before, after, split, span⟩ := stands
  rw [span]
  exact .between split

/-- The place behind a token of one line. -/
theorem pointAfter_real (stands : t.StandsIn source) (oneLine : '\n' ∉ t.lexeme.toList) :
    t.pointAfter.Real source := by
  obtain ⟨before, after, split, span⟩ := stands
  have behind : t.pointAfter = Span.between (Position.origin.advanceAll (before ++ t.lexeme.toList))
      (Position.origin.advanceAll (before ++ t.lexeme.toList ++ [])) := by
    rw [Token.pointAfter, span, List.append_nil, Position.advanceAll_append,
      Position.advanceAll_of_noNewline _ oneLine, String.length_toList]
    rfl
  have whole : source.toList = before ++ t.lexeme.toList ++ [] ++ after := by
    rw [List.append_nil, split]
  rw [behind]
  exact .between whole

end Token.StandsIn

/-- A keyword is spelled by the text that it was recognised from. -/
theorem Keyword.text_of_ofText? {text : String} {word : Keyword} (found : ofText? text = some word) :
    word.text = text := by
  have written := List.find?_some found
  simpa using written

/-- A keyword is written as its word.

Proof: among the readings only a word can be a keyword, and a word is recognised by its text. -/
theorem Reading.lexeme_of_keyword {c : Char} {rest : List Char} {word : Keyword}
    (kind : (read c rest).kind = .keyword word) : String.ofList (read c rest).lexeme = word.text := by
  revert kind
  fun_cases read c rest with
  | case1 =>
    intro kind
    cases kind
  | case2 =>
    intro kind
    cases kind
  | case3 _ _ after =>
    intro kind
    unfold blockComment at kind
    split at kind
    · cases kind
    · cases kind
  | case4 =>
    intro kind
    cases kind
  | case5 =>
    intro kind
    cases kind
  | case6 =>
    intro kind
    cases kind
  | case7 =>
    intro kind
    simp only [Reading.word] at kind ⊢
    cases found : Keyword.ofText? (String.ofList (c :: rest.takeWhile isWord)) with
    | none =>
      rw [found] at kind
      cases kind
    | some other =>
      rw [found] at kind
      cases kind
      exact (Keyword.text_of_ofText? found).symm
  | case8 =>
    intro kind
    have isNumber : (number c rest).kind.isNumber = true := numberKind_isNumber _
    rw [kind] at isNumber
    cases isNumber
  | case9 =>
    intro kind
    cases kind

/-- No keyword is spelled with a newline. -/
theorem Keyword.text_noNewline (word : Keyword) : '\n' ∉ word.text.toList := by
  cases word <;> decide

/-- A keyword that was read from a source has no newline in it. -/
theorem Token.IsRead.noNewline_of_keyword {t : Token} (read : t.IsRead) {word : Keyword}
    (kind : t.kind = .keyword word) : '\n' ∉ t.lexeme.toList := by
  obtain ⟨c, rest, p, rfl⟩ := read
  have written : ((Reading.read c rest).tokenAt p).lexeme = word.text :=
    Reading.lexeme_of_keyword kind
  rw [written]
  exact word.text_noNewline

/-- A token that is read behind a text stands there: the counters have the place behind that
text, and its lexeme is what comes next. -/
theorem Reading.tokenAt_standsIn {source : String} {before : List Char} {c : Char}
    {rest : List Char} (split : source.toList = before ++ c :: rest) :
    ((Reading.read c rest).tokenAt (Position.origin.advanceAll before)).StandsIn source := by
  refine ⟨before, (Reading.read c rest).rest, ?_, ?_⟩
  · rw [Reading.tokenAt, String.toList_ofList, List.append_assoc, Reading.read_lexeme, split]
  · rw [Reading.tokenAt, String.toList_ofList, Position.advanceAll_append]

/-- The end token stands behind all characters of the source. -/
theorem Token.endAt_standsIn (source : String) :
    (Token.endAt (Position.origin.advanceAll source.toList)).StandsIn source := by
  refine ⟨source.toList, [], by simp [Token.endAt], ?_⟩
  simp [Token.endAt]

/-- Every token of a source stands in it.

Proof: by induction on the length of the text that is left. The first token stands where the
text begins, and the others where its lexeme ends. -/
theorem standsIn_of_mem_tokensFrom {source : String} {before text : List Char}
    (split : source.toList = before ++ text) :
    ∀ t ∈ tokensFrom (Position.origin.advanceAll before) text, t.StandsIn source := by
  induction size : text.length using Nat.strongRecOn generalizing before text with
  | _ size ih =>
    cases text with
    | nil =>
      intro t member
      rw [List.append_nil] at split
      rw [tokensFrom, List.mem_singleton] at member
      rw [member, ← split]
      exact Token.endAt_standsIn source
    | cons c rest =>
      intro t member
      rw [tokensFrom] at member
      rcases List.mem_cons.mp member with rfl | later
      · exact Reading.tokenAt_standsIn split
      · rw [← Position.advanceAll_append] at later
        refine ih _ ?_ ?_ rfl t later
        · rw [← size, List.length_cons]
          exact Reading.read_rest_length c rest
        · rw [List.append_assoc, Reading.read_lexeme, split]

/-- Every token of a source stands in it. The tokens are taken one by one, each behind the text
of those before it. -/
theorem standsIn_of_mem_tokenize {source : String} {t : Token}
    (member : t ∈ tokenizeWithTrivia source) : t.StandsIn source := by
  have split : source.toList = [] ++ source.toList := rfl
  exact standsIn_of_mem_tokensFrom split t member

end MessageSchema
