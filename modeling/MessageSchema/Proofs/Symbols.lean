import Mathlib.Data.String.Basic
import MessageSchema.Proofs.Encoding
import MessageSchema.Proofs.Identity

/-!
# Symbol tables and the search for a name

A name is looked up in two ways. References are resolved through a table, which is filled
once by going through the declarations and keeping the first entry of every name. An editor
that asks about the name of a declaration searches the declarations themselves. Both have to
come to the same declaration where a name is declared twice, where a message and an enum share
it and where imports stand in between. Otherwise the references to a type would be other ones
at its name than at its uses.

They differ for the missing name only. It is no entry of the table, while a search for it
ends at the first declaration without a name.

The entries of a table ascend by their names. Names are compared by their characters, and
their bytes are in the same order: a first byte tells how many bytes a character takes, more
bytes are needed for larger scalar values only, and behind first bytes of one length the
scalar value is spelled to the base 64, its most significant digit first.
-/

namespace MessageSchema

/-! ## The order of bytes -/

namespace Text.Utf8

/-- The number that continuing bytes spell behind a first digit. -/
def spelled (digit : Nat) (tails : List UInt8) : Nat :=
  tails.foldl (fun value b => value * 0x40 + payload b) digit

/-- What the first of so many bytes has besides its digit. -/
def mark : Nat → Nat
  | 2 => 0xC0
  | 3 => 0xE0
  | 4 => 0xF0
  | _ => 0

/-- Of two equally long spellings the one of the smaller number has the smaller first digit,
or the same digit and smaller bytes, whatever follows.

Proof: by induction on the bytes behind the digit. A byte adds less than one step of the digit
in front of it, so the bytes decide only where those digits are the same. -/
theorem lt_of_spelled_lt {tails others : List UInt8} {m n : Nat}
    (size : tails.length = others.length) (tail : ∀ b ∈ tails, isTail b = true)
    (tail' : ∀ c ∈ others, isTail c = true) (less : spelled m tails < spelled n others)
    (rest more : List UInt8) : m < n ∨ m = n ∧ tails ++ rest < others ++ more := by
  induction tails generalizing m n others with
  | nil =>
    cases List.eq_nil_of_length_eq_zero size.symm
    exact .inl less
  | cons b tails ih =>
    cases others with
    | nil => cases size
    | cons c others =>
      obtain ⟨here, tail⟩ := List.forall_mem_cons.mp tail
      obtain ⟨here', tail'⟩ := List.forall_mem_cons.mp tail'
      have range := isTail_iff.mp here
      have range' := isTail_iff.mp here'
      rw [List.cons_append, List.cons_append, List.cons_lt_cons_iff, UInt8.lt_iff_toNat_lt,
        ← UInt8.toNat_inj]
      -- The tails decide unless `b` or what stands in front of it does.
      rcases ih (Nat.succ.inj size) tail tail' less with lower | ⟨same, lower⟩
      · have decided : m < n ∨ m = n ∧ b.toNat < c.toNat := by
          simp only [payload] at lower
          omega
        exact decided.imp_right (And.imp_right .inl)
      · have equal : m = n ∧ b.toNat = c.toNat := by
          simp only [payload] at same
          omega
        exact .inr ⟨equal.1, .inr ⟨equal.2, lower⟩⟩

/-- A first byte of a longer character is greater. -/
theorem lt_of_width_lt {b c : UInt8} (lead : 0 < width b) (less : width b < width c) : b < c := by
  have first := width_cases b
  have second := width_cases c
  rw [UInt8.lt_iff_toNat_lt]
  omega

namespace Sequence

variable {taken other : List UInt8} {m n : Nat}

/-- The bytes of a character spell its scalar value behind the digit of the first byte.

Proof: by the number of bytes, where the digit is what the first byte has besides its mark. -/
theorem exists_spelled (sequence : Sequence taken m) :
    ∃ b tails digit, taken = b :: tails ∧ tails.length + 1 = width b
      ∧ (∀ t ∈ tails, isTail t = true) ∧ b.toNat = mark (width b) + digit
      ∧ m = spelled digit tails := by
  cases sequence with
  | @one b lead =>
    exact ⟨b, [], b.toNat, rfl, lead.symm, nofun, by simp [lead, mark], rfl⟩
  | @two b b₂ lead second =>
    have first := width_eq_two_iff.mp lead
    have tail := isTail_iff.mpr (isSecond_iff.mp second).1
    refine ⟨b, [b₂], b.toNat % 0x20, rfl, lead.symm, by simpa using tail, ?_, rfl⟩
    rw [lead, mark]
    omega
  | @three b b₂ b₃ lead second third =>
    have first := width_eq_three_iff.mp lead
    have tail := isTail_iff.mpr (isSecond_iff.mp second).1
    refine ⟨b, [b₂, b₃], b.toNat % 0x10, rfl, lead.symm, by simpa using ⟨tail, third⟩, ?_, rfl⟩
    rw [lead, mark]
    omega
  | @four b b₂ b₃ b₄ lead second third fourth =>
    have first := width_eq_four_iff.mp lead
    have tail := isTail_iff.mpr (isSecond_iff.mp second).1
    refine ⟨b, [b₂, b₃, b₄], b.toNat % 8, rfl, lead.symm, by simpa using ⟨tail, third, fourth⟩,
      ?_, rfl⟩
    rw [lead, mark]
    omega

/-- The number of bytes tells in which range the scalar value lies. -/
theorem range {b : UInt8} {tails : List UInt8} (sequence : Sequence (b :: tails) m) :
    width b = 1 ∧ m < 0x80 ∨ width b = 2 ∧ 0x80 ≤ m ∧ m < 0x800
      ∨ width b = 3 ∧ 0x800 ≤ m ∧ m < 0x10000 ∨ width b = 4 ∧ 0x10000 ≤ m := by
  cases sequence with
  | one lead => exact .inl ⟨lead, width_eq_one_iff.mp lead⟩
  | two lead second => exact .inr (.inl ⟨lead, scalar₂_range lead second⟩)
  | three lead second third =>
    obtain ⟨least, bound, -⟩ := scalar₃_range _ lead second
    exact .inr (.inr (.inl ⟨lead, least, bound⟩))
  | four lead second third fourth =>
    exact .inr (.inr (.inr ⟨lead, (scalar₄_range _ _ lead second).1⟩))

/-- Of two characters the one with the smaller scalar value has the smaller bytes, whatever
follows. -/
theorem append_lt_append (first : Sequence taken m) (second : Sequence other n) (less : m < n)
    (rest more : List UInt8) : taken ++ rest < other ++ more := by
  obtain ⟨b, tails, digit, rfl, size, tail, lead, value⟩ := first.exists_spelled
  obtain ⟨c, others, digit', rfl, size', tail', lead', value'⟩ := second.exists_spelled
  have range := first.range
  have range' := second.range
  rw [List.cons_append, List.cons_append, List.cons_lt_cons_iff]
  by_cases shorter : width b < width c
  · exact .inl (lt_of_width_lt (by omega) shorter)
  · have same : width b = width c := by omega
    rw [same] at size lead
    rw [value, value'] at less
    rcases lt_of_spelled_lt (by omega) tail tail' less rest more with lower | ⟨digits, lower⟩
    · exact .inl (UInt8.lt_iff_toNat_lt.mpr (by omega))
    · exact .inr ⟨UInt8.toNat_inj.mp (by omega), lower⟩

end Sequence

/-- Texts are ordered as their bytes are. By induction on the first text: where the two differ
first, the bytes of the two characters decide, and before that the bytes are the same. -/
theorem flatMap_encode_lt {first second : List Char} (less : first < second) :
    first.flatMap String.utf8EncodeChar < second.flatMap String.utf8EncodeChar := by
  induction first generalizing second with
  | nil =>
    cases second with
    | nil => exact absurd less (List.not_lt_nil _)
    | cons d second =>
      obtain ⟨b, bytes, same, -⟩ := first_encode d (second.flatMap String.utf8EncodeChar)
      rw [List.flatMap_cons, same]
      exact List.nil_lt_cons _ _
  | cons c first ih =>
    cases second with
    | nil => exact absurd less (List.not_lt_nil _)
    | cons d second =>
      rw [List.flatMap_cons, List.flatMap_cons]
      rcases List.cons_lt_cons_iff.mp less with lower | ⟨rfl, later⟩
      · exact (sequence_encode c).append_lt_append (sequence_encode d) lower _ _
      · exact List.append_left_lt (ih later)

/-- The bytes of texts are ordered as the texts are. -/
theorem bytesOf_lt {first second : String} (less : first < second) :
    bytesOf first < bytesOf second := by
  rw [bytesOf_eq, bytesOf_eq]
  exact flatMap_encode_lt less

end Text.Utf8

/-! ## What a document declares -/

namespace Document

variable {d : Document} {name : String} {id : DeclId}

/-- Of the types of one name there is a first. -/
theorem exists_declares_iff :
    (∃ id, d.Declares name id)
      ↔ ∃ declaration ∈ d.declarations, declaration.isType = true ∧ declaration.name = name := by
  constructor
  · rintro ⟨id, declares⟩
    obtain ⟨declaration, there, kind, named⟩ := declares.place
    have type : declaration.isType = true := by rw [Declaration.isType, kind, Option.isSome_some]
    exact ⟨declaration, List.mem_of_getElem? there, type, named⟩
  · rintro ⟨declaration, member, type, named⟩
    classical
    have somewhere : ∃ i : Nat, ∃ declaration, d.declarations[i]? = some declaration
        ∧ declaration.isType = true ∧ declaration.name = name := by
      obtain ⟨i, there⟩ := List.mem_iff_getElem?.mp member
      exact ⟨i, declaration, there, type, named⟩
    obtain ⟨first, there, isType, called⟩ := Nat.find_spec somewhere
    obtain ⟨kind, denoted⟩ := Option.isSome_iff_exists.mp isType
    refine ⟨⟨d.name, Nat.find somewhere, kind⟩, rfl, ⟨first, there, denoted, called⟩, ?_⟩
    intro i less earlier here isEarlier same
    exact Nat.find_min somewhere less ⟨earlier, here, isEarlier, same⟩

/-- The first type of a name is found again by its identity. -/
theorem Declares.denotes (declares : d.Declares name id) : d.Denotes id name := by
  obtain ⟨declaration, there, kind, named⟩ := declares.place
  refine ⟨declaration, ?_, kind, named⟩
  rw [declaration?, if_pos declares.owner, there]

end Document

/-! ## What a table lists -/

namespace SymbolTable

variable {d : Document} {name : String} {id : DeclId}

/-- The entries of a table are the names with the identities that are looked up by them. -/
theorem mem_entries_iff {table : SymbolTable} :
    (name, id) ∈ table.entries ↔ table.get? name = some id :=
  Std.ExtTreeMap.mem_toList_iff_getElem?_eq_some

/-- The names of the entries ascend, without repetitions. -/
theorem names_ascending (table : SymbolTable) :
    (table.entries.map Prod.fst).Pairwise (· < ·) := by
  rw [entries, Std.ExtTreeMap.map_fst_toList_eq_keys]
  exact table.types.ordered_keys.imp compare_lt_iff_lt.mp

/-- The names of a document's table are the names of its types, without the missing ones. -/
theorem mem_names_ofDocument_iff :
    name ∈ (ofDocument d).entries.map Prod.fst
      ↔ name ≠ "" ∧ ∃ declaration ∈ d.declarations,
        declaration.isType = true ∧ declaration.name = name := by
  rw [← Document.exists_declares_iff]
  constructor
  · intro member
    obtain ⟨⟨name, id⟩, entry, rfl⟩ := List.mem_map.mp member
    obtain ⟨given, declares⟩ := get?_ofDocument_eq_some_iff.mp (mem_entries_iff.mp entry)
    exact ⟨given, id, declares⟩
  · rintro ⟨given, id, declares⟩
    have entry : (name, id) ∈ (ofDocument d).entries :=
      mem_entries_iff.mpr (get?_ofDocument_eq_some_iff.mpr ⟨given, declares⟩)
    exact List.mem_map.mpr ⟨(name, id), entry, rfl⟩

end SymbolTable

open Text.Utf8 (bytesOf)

/-- Under a name that is not missing, the table of a document has what a search of the
document finds: the first message or enum of the name. Its identity leads back to a
declaration of this name and kind. The entries of the table are what is found in it, one for
each name that some message or enum has, and the names strictly ascend, by their characters
and by their bytes.

Proof: filling the table keeps the first entry of a name, which is what a search for the name
finds. The entries ascend by the order of the table, and the order of characters is that of
bytes. -/
theorem symbols_agree_with_search (d : Document) :
    let table := SymbolTable.ofDocument d
    let names := table.entries.map Prod.fst
    (∀ name ≠ "", table.get? name = d.findType? name
        ∧ ∀ id, table.get? name = some id ↔ d.Declares name id)
      ∧ (∀ name id, table.get? name = some id → d.Denotes id name)
      ∧ (∀ name id, (name, id) ∈ table.entries ↔ table.get? name = some id)
      ∧ (∀ name, name ∈ names ↔ name ≠ "" ∧ ∃ declaration ∈ d.declarations,
        declaration.isType = true ∧ declaration.name = name)
      ∧ names.Pairwise fun a b => a < b ∧ bytesOf a < bytesOf b := by
  intro table names
  refine ⟨?_, ?_, ?_, ?_, ?_⟩
  · intro name given
    have same : table.get? name = d.findType? name := by
      rw [SymbolTable.get?_ofDocument, if_neg given]
    exact ⟨same, fun id => by rw [same, Document.findType?_eq_some_iff]⟩
  · intro name id found
    exact (SymbolTable.get?_ofDocument_eq_some_iff.mp found).2.denotes
  · intro name id
    exact SymbolTable.mem_entries_iff
  · intro name
    exact SymbolTable.mem_names_ofDocument_iff
  · exact table.names_ascending.imp fun less => ⟨less, Text.Utf8.bytesOf_lt less⟩

/-- A source in which two names are declared twice, in either order of message and enum. One
of them is also the name of an import between the two, and one message has no name. -/
def crowdedSource : String :=
  "import b;\nmessage Kind \x7b \x7d\nmessage \x7b \x7d\nenum Abc \x7b \x7d\nimport Kind;\n"
    ++ "enum Kind \x7b \x7d\nmessage Abc \x7b \x7d"

/-- The first declaration of a repeated name is in the table. The declaration without a name
is found by a search only. -/
theorem crowdedSource_symbols :
    let d := (analyze crowdedSource "main" .empty .standard).document
    let table := SymbolTable.ofDocument d
    table.entries = [("Abc", ⟨"main", 3, .enum⟩), ("Kind", ⟨"main", 1, .message⟩)]
      ∧ table.get? "Kind" = d.findType? "Kind" ∧ d.Declares "Kind" ⟨"main", 1, .message⟩
      ∧ d.Denotes ⟨"main", 1, .message⟩ "Kind"
      ∧ d.findType? "" = some ⟨"main", 2, .message⟩ ∧ table.get? "" = none := by
  intro d table
  have evaluated : table.entries = [("Abc", ⟨"main", 3, .enum⟩), ("Kind", ⟨"main", 1, .message⟩)]
      ∧ d.findType? "" = some ⟨"main", 2, .message⟩ ∧ table.get? "" = none := by decide +kernel
  obtain ⟨entries, nameless, missing⟩ := evaluated
  obtain ⟨agree, denoted, listed, -, -⟩ := symbols_agree_with_search d
  obtain ⟨same, first⟩ := agree "Kind" (by decide)
  have found : table.get? "Kind" = some ⟨"main", 1, .message⟩ :=
    (listed "Kind" _).mp (by rw [entries]; decide)
  exact ⟨entries, same, (first _).mp found, denoted "Kind" _ found, nameless, missing⟩

end MessageSchema
