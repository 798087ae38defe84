import Mathlib.Tactic.SplitIfs
import MessageSchema.Analysis
import MessageSchema.Proofs.Places

/-!
# Bytes and the texts they encode

Bytes are decoded from the left, one character at a time, by their ranges alone. The
bytes that are read as a character are the bytes that a character is written with, and
no others: the ranges keep out longer forms, surrogates and numbers beyond all scalar
values. Reading is also blind to what follows a character, so the characters of a text
are read whatever bytes come behind them.

From these two facts decoding gives back a text exactly if the bytes encode it, and
otherwise stops behind the longest text that the bytes begin with. The analysis of
bytes is then the analysis of their text, or one finding at the place where that
longest text ends, with the line and column that the reading of tokens would have come
to there.
-/

namespace MessageSchema

namespace Text.Utf8

/-! ## One character -/

/-- The bytes of one character, by their number, and the scalar value that they spell. -/
inductive Sequence : List UInt8 → Nat → Prop
  | one {b : UInt8} (lead : width b = 1) : Sequence [b] b.toNat
  | two {b b₂ : UInt8} (lead : width b = 2) (second : isSecond b b₂ = true) :
      Sequence [b, b₂] (scalar₂ b b₂)
  | three {b b₂ b₃ : UInt8} (lead : width b = 3) (second : isSecond b b₂ = true)
      (third : isTail b₃ = true) : Sequence [b, b₂, b₃] (scalar₃ b b₂ b₃)
  | four {b b₂ b₃ b₄ : UInt8} (lead : width b = 4) (second : isSecond b b₂ = true)
      (third : isTail b₃ = true) (fourth : isTail b₄ = true) :
      Sequence [b, b₂, b₃, b₄] (scalar₄ b b₂ b₃ b₄)

/-- The bytes of a character are read as such, whatever follows. -/
theorem first_of_sequence {taken : List UInt8} {value : Nat} (sequence : Sequence taken value)
    (rest : List UInt8) :
    ∃ b bytes, taken ++ rest = b :: bytes ∧ first b bytes = .ok (Char.ofNat value, rest) := by
  cases sequence with
  | one lead => exact ⟨_, _, rfl, by simp [first, lead]⟩
  | two lead second => exact ⟨_, _, rfl, by simp [first, lead, second]⟩
  | three lead second third => exact ⟨_, _, rfl, by simp [first, lead, second, third]⟩
  | four lead second third fourth =>
    exact ⟨_, _, rfl, by simp [first, lead, second, third, fourth]⟩

/-- What is read as a character is one of the sequences. The cases are those of reading; all
others end in a fault. -/
theorem exists_sequence_of_first {b : UInt8} {bytes rest : List UInt8} {c : Char}
    (read : first b bytes = .ok (c, rest)) :
    ∃ taken value, Sequence taken value ∧ b :: bytes = taken ++ rest ∧ c = Char.ofNat value := by
  revert read
  fun_cases first b bytes with
  | case1 rest lead =>
    rintro ⟨⟩
    exact ⟨_, _, .one lead, rfl, rfl⟩
  | case3 b₂ rest lead second =>
    rintro ⟨⟩
    exact ⟨_, _, .two lead second, rfl, rfl⟩
  | case7 b₂ lead second b₃ rest third =>
    rintro ⟨⟩
    exact ⟨_, _, .three lead second third, rfl, rfl⟩
  | case13 b₂ lead second b₃ third b₄ rest fourth =>
    rintro ⟨⟩
    exact ⟨_, _, .four lead second third fourth, rfl, rfl⟩
  | _ => exact nofun

/-- A fault covers bytes that are there. -/
theorem first_error_length {b : UInt8} {bytes : List UInt8} {covered : Nat}
    (failed : first b bytes = .error (some covered)) :
    0 < covered ∧ covered ≤ (b :: bytes).length := by
  revert failed
  fun_cases first b bytes <;> intro failed <;> cases failed <;> simp

/-! ## Ranges of bytes and of scalar values -/

section Ranges

variable {b b₂ b₃ b₄ : UInt8}

/-- The first byte determines how many bytes a character has, or that it begins none. Neither a
byte that continues a character nor one of the two that spell only longer forms can be the
first. -/
theorem width_cases (b : UInt8) :
    width b = 1 ∧ b.toNat < 0x80 ∨ width b = 2 ∧ 0xC2 ≤ b.toNat ∧ b.toNat ≤ 0xDF
      ∨ width b = 3 ∧ 0xE0 ≤ b.toNat ∧ b.toNat ≤ 0xEF
      ∨ width b = 4 ∧ 0xF0 ≤ b.toNat ∧ b.toNat ≤ 0xF4
      ∨ width b = 0 ∧ (0x80 ≤ b.toNat ∧ b.toNat < 0xC2 ∨ 0xF4 < b.toNat) := by
  simp only [width, UInt8.lt_iff_toNat_lt, UInt8.le_iff_toNat_le, UInt8.reduceToNat,
    Bool.and_eq_true, decide_eq_true_eq]
  split_ifs <;> omega

/-- One byte is taken for values below 80. -/
theorem width_eq_one_iff : width b = 1 ↔ b.toNat < 0x80 := by
  have := width_cases b
  omega

/-- Two bytes begin with C2 to DF. C0 and C1 would begin a longer form of what one byte
spells. -/
theorem width_eq_two_iff : width b = 2 ↔ 0xC2 ≤ b.toNat ∧ b.toNat ≤ 0xDF := by
  have := width_cases b
  omega

/-- Three bytes begin with E0 to EF. -/
theorem width_eq_three_iff : width b = 3 ↔ 0xE0 ≤ b.toNat ∧ b.toNat ≤ 0xEF := by
  have := width_cases b
  omega

/-- Four bytes begin with F0 to F4. What follows F4 lies beyond all scalar values. -/
theorem width_eq_four_iff : width b = 4 ↔ 0xF0 ≤ b.toNat ∧ b.toNat ≤ 0xF4 := by
  have := width_cases b
  omega

/-- A byte that continues a character is one from 80 to BF. -/
theorem isTail_iff : isTail b = true ↔ 0x80 ≤ b.toNat ∧ b.toNat ≤ 0xBF := by
  simp [isTail, UInt8.le_iff_toNat_le]

/-- The second byte continues a character. Behind four of the first bytes its range is narrower:
it keeps out longer forms behind E0 and F0, surrogates behind ED, and numbers beyond all scalar
values behind F4. -/
theorem isSecond_iff : isSecond b b₂ = true ↔
    (0x80 ≤ b₂.toNat ∧ b₂.toNat ≤ 0xBF)
      ∧ (b.toNat = 0xE0 → 0xA0 ≤ b₂.toNat) ∧ (b.toNat = 0xED → b₂.toNat ≤ 0x9F)
      ∧ (b.toNat = 0xF0 → 0x90 ≤ b₂.toNat) ∧ (b.toNat = 0xF4 → b₂.toNat ≤ 0x8F) := by
  simp only [isSecond, isTail, ← UInt8.toNat_inj, UInt8.reduceToNat, UInt8.le_iff_toNat_le]
  split_ifs <;> simp <;> omega

/-- Two bytes spell a number that needs two. -/
theorem scalar₂_range (lead : width b = 2) (second : isSecond b b₂ = true) :
    0x80 ≤ scalar₂ b b₂ ∧ scalar₂ b b₂ < 0x800 := by
  obtain ⟨least, greatest⟩ := width_eq_two_iff.mp lead
  obtain ⟨tail, -⟩ := isSecond_iff.mp second
  unfold scalar₂ payload
  omega

/-- The second byte keeps three bytes from spelling what two can spell, and from
spelling a surrogate. -/
theorem scalar₃_range (b₃ : UInt8) (lead : width b = 3) (second : isSecond b b₂ = true) :
    0x800 ≤ scalar₃ b b₂ b₃ ∧ scalar₃ b b₂ b₃ < 0x10000
      ∧ (scalar₃ b b₂ b₃ < 0xD800 ∨ 0xDFFF < scalar₃ b b₂ b₃) := by
  obtain ⟨least, greatest⟩ := width_eq_three_iff.mp lead
  obtain ⟨tail, notShorter, notSurrogate, -⟩ := isSecond_iff.mp second
  unfold scalar₃ payload
  omega

/-- The second byte keeps four bytes from spelling what three can spell, and from
spelling more than a character. -/
theorem scalar₄_range (b₃ b₄ : UInt8) (lead : width b = 4) (second : isSecond b b₂ = true) :
    0x10000 ≤ scalar₄ b b₂ b₃ b₄ ∧ scalar₄ b b₂ b₃ b₄ < 0x110000 := by
  obtain ⟨least, greatest⟩ := width_eq_four_iff.mp lead
  obtain ⟨tail, -, -, notShorter, notBeyond⟩ := isSecond_iff.mp second
  unfold scalar₄ payload
  omega

end Ranges

/-! ## The bytes that a character is written with -/

/-- A character that is made from a scalar value has this value. -/
theorem toNat_val_ofNat {value : Nat} (valid : value.isValidChar) :
    (Char.ofNat value).val.toNat = value := by
  rw [Char.ofNat, dif_pos valid]
  rfl

namespace Sequence

variable {b b₂ b₃ b₄ : UInt8} {v : Nat}

/-- The bytes of a character are those that it is written with.

Proof: by the number of bytes. In each case the bytes are compared one by one with those that
the scalar value is written with, and the ranges decide how many these are. -/
theorem encodes {taken : List UInt8} (sequence : Sequence taken v) :
    taken = String.utf8EncodeChar (Char.ofNat v) := by
  cases sequence with
  | @one b lead =>
    have range := width_eq_one_iff.mp lead
    have valid : b.toNat.isValidChar := .inl (by omega)
    simp only [String.utf8EncodeChar, toNat_val_ofNat valid]
    rw [if_pos (by omega), UInt8.ofNat_toNat]
  | @two b b₂ lead second =>
    have range := scalar₂_range lead second
    have valid : (scalar₂ b b₂).isValidChar := .inl (by omega)
    simp only [String.utf8EncodeChar, toNat_val_ofNat valid]
    rw [if_neg (by omega), if_pos (by omega)]
    have first := width_eq_two_iff.mp lead
    have tail := (isSecond_iff.mp second).1
    simp only [List.cons.injEq, ← UInt8.toNat_inj, UInt8.toNat_ofNat', scalar₂, payload]
    refine ⟨?_, ?_, trivial⟩ <;> omega
  | @three b b₂ b₃ lead second third =>
    have range := scalar₃_range b₃ lead second
    have valid : (scalar₃ b b₂ b₃).isValidChar := by
      unfold Nat.isValidChar
      omega
    simp only [String.utf8EncodeChar, toNat_val_ofNat valid]
    rw [if_neg (by omega), if_neg (by omega), if_pos (by omega)]
    clear range valid
    have first := width_eq_three_iff.mp lead
    have tail := (isSecond_iff.mp second).1
    have third := isTail_iff.mp third
    simp only [List.cons.injEq, ← UInt8.toNat_inj, UInt8.toNat_ofNat', scalar₃, payload]
    refine ⟨?_, ?_, ?_, trivial⟩ <;> omega
  | @four b b₂ b₃ b₄ lead second third fourth =>
    have range := scalar₄_range b₃ b₄ lead second
    have valid : (scalar₄ b b₂ b₃ b₄).isValidChar := by
      unfold Nat.isValidChar
      omega
    simp only [String.utf8EncodeChar, toNat_val_ofNat valid]
    rw [if_neg (by omega), if_neg (by omega), if_neg (by omega)]
    clear range valid
    have first := width_eq_four_iff.mp lead
    have tail := (isSecond_iff.mp second).1
    have third := isTail_iff.mp third
    have fourth := isTail_iff.mp fourth
    simp only [List.cons.injEq, ← UInt8.toNat_inj, UInt8.toNat_ofNat', scalar₄, payload]
    refine ⟨?_, ?_, ?_, ?_, trivial⟩ <;> omega

/-- The two bytes that a number is written with spell it. -/
theorem of_two (least : 0x80 ≤ v) (bound : v < 0x800) (first : b.toNat = v / 0x40 + 0xC0)
    (second : b₂.toNat = v % 0x40 + 0x80) : Sequence [b, b₂] v := by
  have value : scalar₂ b b₂ = v := by
    rw [scalar₂, payload]
    omega
  have lead : width b = 2 := by
    rw [width_eq_two_iff]
    omega
  have follows : isSecond b b₂ = true := by
    rw [isSecond_iff]
    omega
  exact value ▸ .two lead follows

/-- The three bytes that a number is written with spell it, if it is no surrogate. -/
theorem of_three (least : 0x800 ≤ v) (bound : v < 0x10000) (scalar : v < 0xD800 ∨ 0xDFFF < v)
    (first : b.toNat = v / 0x1000 + 0xE0) (second : b₂.toNat = v / 0x40 % 0x40 + 0x80)
    (third : b₃.toNat = v % 0x40 + 0x80) : Sequence [b, b₂, b₃] v := by
  have value : scalar₃ b b₂ b₃ = v := by
    rw [scalar₃, payload, payload]
    omega
  have lead : width b = 3 := by
    rw [width_eq_three_iff]
    omega
  have follows : isSecond b b₂ = true := by
    rw [isSecond_iff]
    omega
  have tail : isTail b₃ = true := by
    rw [isTail_iff]
    omega
  exact value ▸ .three lead follows tail

/-- The four bytes that a number is written with spell it. -/
theorem of_four (least : 0x10000 ≤ v) (bound : v < 0x110000)
    (first : b.toNat = v / 0x40000 + 0xF0) (second : b₂.toNat = v / 0x1000 % 0x40 + 0x80)
    (third : b₃.toNat = v / 0x40 % 0x40 + 0x80) (fourth : b₄.toNat = v % 0x40 + 0x80) :
    Sequence [b, b₂, b₃, b₄] v := by
  have value : scalar₄ b b₂ b₃ b₄ = v := by
    rw [scalar₄, payload, payload, payload]
    omega
  have lead : width b = 4 := by
    rw [width_eq_four_iff]
    omega
  have follows : isSecond b b₂ = true := by
    rw [isSecond_iff]
    omega
  have tail : isTail b₃ = true := by
    rw [isTail_iff]
    omega
  have last : isTail b₄ = true := by
    rw [isTail_iff]
    omega
  exact value ▸ .four lead follows tail last

end Sequence

/-- What a character is written with are the bytes of a character.

Proof: the cases are the four lengths in which a scalar value is written. In each the bytes have
the ranges of that length, which arithmetic shows from the bounds of the value. -/
theorem sequence_encode (c : Char) : Sequence (String.utf8EncodeChar c) c.toNat := by
  have valid : c.val.toNat.isValidChar := c.valid
  have scalar : c.val.toNat < 0xD800 ∨ 0xDFFF < c.val.toNat := valid.imp_right And.left
  have bound : c.val.toNat < 0x110000 := by
    unfold Nat.isValidChar at valid
    omega
  clear valid
  show Sequence _ c.val.toNat
  fun_cases String.utf8EncodeChar c with
  | case1 v one =>
    have value : (UInt8.ofNat v).toNat = v := by
      rw [UInt8.toNat_ofNat']
      omega
    have lead : width (UInt8.ofNat v) = 1 := by
      rw [width_eq_one_iff]
      omega
    have sequence := Sequence.one lead
    rwa [value] at sequence
  | case2 v notOne two =>
    refine .of_two (by omega) (by omega) ?_ ?_
    all_goals
      rw [UInt8.toNat_ofNat']
      omega
  | case3 v notOne notTwo three =>
    refine .of_three (by omega) (by omega) scalar ?_ ?_ ?_
    all_goals
      rw [UInt8.toNat_ofNat']
      omega
  | case4 v notOne notTwo notThree =>
    refine .of_four (by omega) bound ?_ ?_ ?_ ?_
    all_goals
      rw [UInt8.toNat_ofNat']
      omega

/-- What a character is written with is read as this character, whatever follows. -/
theorem first_encode (c : Char) (rest : List UInt8) :
    ∃ b bytes, String.utf8EncodeChar c ++ rest = b :: bytes ∧ first b bytes = .ok (c, rest) := by
  have read := first_of_sequence (sequence_encode c) rest
  rwa [Char.ofNat_toNat] at read

/-- What is read as a character is what this character is written with. So two different
sequences never spell one character. -/
theorem encode_of_first {b : UInt8} {bytes rest : List UInt8} {c : Char}
    (read : first b bytes = .ok (c, rest)) : b :: bytes = String.utf8EncodeChar c ++ rest := by
  obtain ⟨taken, value, sequence, same, rfl⟩ := exists_sequence_of_first read
  rw [same, sequence.encodes]

/-! ## All characters -/

/-- The bytes of a text. -/
def bytesOf (text : String) : List UInt8 :=
  text.toUTF8.data.toList

/-- The bytes of a text are those of its characters, one after the other. -/
theorem bytesOf_ofList (text : List Char) :
    bytesOf (String.ofList text) = text.flatMap String.utf8EncodeChar := by
  rw [bytesOf, String.toUTF8_eq_toByteArray, String.toByteArray_ofList, List.utf8Encode,
    List.toList_data_toByteArray]

/-- The bytes of a string are those of the characters that it is a list of. -/
theorem bytesOf_eq (text : String) : bytesOf text = text.toList.flatMap String.utf8EncodeChar := by
  rw [← bytesOf_ofList, String.ofList_toList]

/-- The characters in front are read whatever follows. -/
theorem split_encode_append (text : List Char) (rest : List UInt8) :
    split (text.flatMap String.utf8EncodeChar ++ rest)
      = (text ++ (split rest).1, (split rest).2) := by
  induction text with
  | nil => rfl
  | cons c text ih =>
    obtain ⟨b, bytes, same, read⟩ := first_encode c (text.flatMap String.utf8EncodeChar ++ rest)
    rw [List.flatMap_cons, List.append_assoc, same, split]
    split
    case h_1 covered failed => cases read.symm.trans failed
    case h_2 other behind reads =>
      cases read.symm.trans reads
      rw [ih]
      rfl

/-- What was read and what is left make up the bytes. -/
theorem split_reassembles (bytes : List UInt8) :
    bytes = (split bytes).1.flatMap String.utf8EncodeChar ++ (split bytes).2.elim [] Prod.fst := by
  fun_induction split bytes with
  | case1 => rfl
  | case2 b bytes covered failed => rfl
  | case3 b bytes c rest read _ more stop parts ih =>
    rw [parts] at ih
    rw [encode_of_first read, List.flatMap_cons, List.append_assoc, ← ih]

/-- Reading stops where no character can be read. -/
theorem split_stops {bytes left : List UInt8} {covered : Option Nat}
    (stopped : (split bytes).2 = some (left, covered)) :
    ∃ b more, left = b :: more ∧ first b more = .error covered := by
  revert stopped
  fun_induction split bytes with
  | case1 => exact nofun
  | case2 b bytes covered failed =>
    rintro ⟨⟩
    exact ⟨b, bytes, rfl, failed⟩
  | case3 b bytes c rest read _ more stop parts ih =>
    rw [parts] at ih
    exact ih

/-- Bytes are decoded to a text exactly if they are the bytes of that text. -/
theorem decode_eq_ok_iff {bytes : List UInt8} {text : List Char} :
    decode bytes = .ok text ↔ bytes = bytesOf (String.ofList text) := by
  rw [bytesOf_ofList]
  constructor
  · intro decoded
    have whole := split_reassembles bytes
    unfold decode at decoded
    split at decoded
    case h_1 parts =>
      cases decoded
      rwa [parts, Option.elim_none, List.append_nil] at whole
    case h_2 => cases decoded
  · rintro rfl
    have whole := split_encode_append text []
    rw [List.append_nil] at whole
    rw [decode, whole]
    simp [split]

/-- The longest text that some bytes begin with. -/
structure LongestText (bytes : List UInt8) (text : String) : Prop where
  begins : bytesOf text <+: bytes
  longest : ∀ other, bytesOf other <+: bytes → (bytesOf other).length ≤ (bytesOf text).length

/-- Decoding stops behind the longest text that the bytes begin with, and the fault
covers some of the bytes that are left.

Proof: what was read and what is left are the bytes together. Any text that they begin with is
read first, so what was read begins with it and is not shorter. -/
theorem decode_error {bytes : List UInt8} {text : List Char} {fault : Fault}
    (stopped : decode bytes = .error (text, fault)) :
    LongestText bytes (String.ofList text) ∧ fault.offset = (bytesOf (String.ofList text)).length
      ∧ fault.offset < bytes.length
      ∧ ∀ covered ∈ fault.length?, 0 < covered ∧ fault.offset + covered ≤ bytes.length := by
  unfold decode at stopped
  split at stopped
  case h_1 => cases stopped
  case h_2 left covered parts =>
  cases stopped
  have whole : bytes = bytesOf (String.ofList text) ++ left := by
    have reassembled := split_reassembles bytes
    rwa [parts, ← bytesOf_ofList] at reassembled
  have size : bytes.length = (bytesOf (String.ofList text)).length + left.length := by
    rw [← List.length_append, ← whole]
  obtain ⟨b, more, rfl, failed⟩ := split_stops (congrArg Prod.snd parts)
  rw [List.length_cons] at size
  simp only [List.length_cons]
  refine ⟨⟨⟨b :: more, whole.symm⟩, ?_⟩, by omega, by omega, ?_⟩
  · -- A text that the bytes begin with is read first, so what was read begins with it.
    rintro other ⟨rest, begins⟩
    have again := split_encode_append other.toList rest
    rw [← bytesOf_eq, begins, parts, Prod.mk.injEq] at again
    rw [again.1, bytesOf_ofList, List.flatMap_append, ← bytesOf_eq, List.length_append]
    omega
  · rintro count ⟨⟩
    have covers := first_error_length failed
    rw [List.length_cons] at covers
    omega

end Text.Utf8

/-! ## The analysis of bytes -/

open Text.Utf8 (bytesOf LongestText)

/-- The finding lies within the bytes and is not empty. -/
theorem encodingFinding_inside {bytes : List UInt8} {text : List Char} {fault : Text.Utf8.Fault}
    (stopped : Text.Utf8.decode bytes = .error (text, fault)) :
    (encodingFinding bytes text fault).span.start < (encodingFinding bytes text fault).span.stop
      ∧ (encodingFinding bytes text fault).span.stop ≤ bytes.length := by
  obtain ⟨-, -, inside, covers⟩ := Text.Utf8.decode_error stopped
  unfold encodingFinding
  cases given : fault.length? with
  | none =>
    simp only [Option.getD_none]
    omega
  | some covered =>
    have bounds := covers covered given
    simp only [Option.getD_some]
    omega

/-- The finding has the line and column that the counters have behind the text. -/
theorem encodingFinding_place (bytes : List UInt8) (text : List Char) (fault : Text.Utf8.Fault) :
    (encodingFinding bytes text fault).span.line = (Position.origin.advanceAll text).line
      ∧ (encodingFinding bytes text fault).span.column
        = (Position.origin.advanceAll text).column := by
  rw [Position.origin_advanceAll, encodingFinding, lastLine, List.length_reverse]
  exact ⟨Nat.add_comm _ _, Nat.add_comm _ _⟩

/-- Bytes are analysed as the text that they encode. Bytes that encode no text give an
empty document, no symbols and one finding: it begins where the longest text ends that
the bytes begin with, covers at least one of the bytes behind it, and has the line and
column of the end token of that text.

Proof: decoding gives back a text exactly if the bytes encode it. Otherwise it stops behind the
longest text they begin with, and the place of the finding is counted along the tokens of that
text. -/
theorem analyzeBytes_exact (bytes : List UInt8) (name : String) (imports : Imports)
    (config : Config) :
    (∀ source, bytes = bytesOf source →
      analyzeBytes bytes name imports config = analyze source name imports config)
    ∧ ((∀ source, bytes ≠ bytesOf source) →
      ∃ source span, LongestText bytes source
        ∧ analyzeBytes bytes name imports config
          = ⟨⟨name, [], ⟨0, 0, 1, 1⟩⟩, ⟨∅⟩, [⟨.invalidEncoding span.start, span⟩]⟩
        ∧ span.start = (bytesOf source).length
        ∧ span.start < span.stop ∧ span.stop ≤ bytes.length
        ∧ ∃ body last, tokenizeWithTrivia source = body ++ [last] ∧ last.kind = .eof
          ∧ span.line = last.span.line ∧ span.column = last.span.column) := by
  constructor
  · intro source same
    have decoded : Text.Utf8.decode bytes = .ok source.toList := by
      rw [Text.Utf8.decode_eq_ok_iff, String.ofList_toList, same]
    rw [analyzeBytes, decoded]
    simp only [String.ofList_toList]
  · intro noText
    cases decoded : Text.Utf8.decode bytes with
    | ok text => exact absurd (Text.Utf8.decode_eq_ok_iff.mp decoded) (noText _)
    | error stop =>
      obtain ⟨text, fault⟩ := stop
      obtain ⟨longest, offset, -, -⟩ := Text.Utf8.decode_error decoded
      obtain ⟨positive, inside⟩ := encodingFinding_inside decoded
      obtain ⟨body, tokens, -⟩ := exists_tokensFrom .origin text
      rw [← String.toList_ofList (l := text), ← tokenizeWithTrivia] at tokens
      refine ⟨String.ofList text, (encodingFinding bytes text fault).span, longest, ?_, offset,
        positive, inside, body, _, tokens, rfl, ?_⟩
      · rw [analyzeBytes, decoded]
        rfl
      · rw [String.toList_ofList]
        exact encodingFinding_place bytes text fault

/-- Two lines with characters of two and three bytes, and then a surrogate. -/
def surrogateBytes : List UInt8 :=
  [0xC3, 0xA9, 0x0A, 0xE2, 0x9C, 0x93, 0xED, 0xA0, 0x80]

/-- Bytes that spell a surrogate are the bytes of no text, and their analysis is one finding
behind the text before them. -/
theorem surrogateBytes_rejected :
    (∀ source, surrogateBytes ≠ bytesOf source)
      ∧ ∃ source span, LongestText surrogateBytes source
        ∧ analyzeBytes surrogateBytes "lone" .empty .standard
          = ⟨⟨"lone", [], ⟨0, 0, 1, 1⟩⟩, ⟨∅⟩, [⟨.invalidEncoding span.start, span⟩]⟩
        ∧ span.start = (bytesOf source).length
        ∧ span.start < span.stop ∧ span.stop ≤ 9
        ∧ ∃ body last, tokenizeWithTrivia source = body ++ [last] ∧ last.kind = .eof
          ∧ span.line = last.span.line ∧ span.column = last.span.column := by
  have noText : ∀ source, surrogateBytes ≠ bytesOf source := by
    intro source same
    rw [← String.ofList_toList (s := source), ← Text.Utf8.decode_eq_ok_iff] at same
    have stopped : (Text.Utf8.decode surrogateBytes).toOption = none := by decide +kernel
    rw [same] at stopped
    cases stopped
  exact ⟨noText, (analyzeBytes_exact surrogateBytes "lone" .empty .standard).2 noText⟩

end MessageSchema
