import Mathlib.Computability.RegularExpressions
import MessageSchema.Proofs.Phrases

/-!
# The grammar as a language

No production of the grammar refers back to itself, so the documented grammar is
a regular expression over kinds of tokens, written here production by
production. Membership is decidable.

`Yields` connects an expression to a type of phrases: its words are exactly the
kinds of the phrases' tokens. It is closed under the operators of expressions,
so each production is connected to its phrase type in one step, and the whole
grammar to lists of declaration phrases.
-/

namespace MessageSchema.Grammar

open RegularExpression

/-- An expression that may be absent. -/
def optional (r : RegularExpression TokenKind) : RegularExpression TokenKind :=
  r + 1

/-- A keyword, as it is spelled. -/
def word (w : Keyword) : RegularExpression TokenKind :=
  char (.keyword w)

/-- A punctuation mark. -/
def mark (m : Punct) : RegularExpression TokenKind :=
  char (.punct m)

/-- `IDENT` -/
def identifier : RegularExpression TokenKind :=
  char .identifier

/-- `NUMBER` -/
def number : RegularExpression TokenKind :=
  char .integer + char .float

/-- `type ::= IDENT { "." IDENT }` -/
def dotted : RegularExpression TokenKind :=
  identifier * star (mark .dot * identifier)

/-- `importing ::= "import" ( IDENT { "." IDENT } | STRING ) ";"` -/
def importing : RegularExpression TokenKind :=
  word .importing * (dotted + char .string) * mark .semicolon

/-- `[ "=" NUMBER ] ";"`, the end of fields and variants. -/
def ending : RegularExpression TokenKind :=
  optional (mark .equals * number) * mark .semicolon

/-- `modifier ::= "required" | "optional" | "repeated"` -/
def modifier : RegularExpression TokenKind :=
  word .required + word .optional + word .repeated

/-- `field ::= { modifier } "field" IDENT [ ":" type ] [ "=" NUMBER ] ";"` -/
def field : RegularExpression TokenKind :=
  star modifier * word .field * identifier * optional (mark .colon * dotted) * ending

/-- `variant ::= IDENT [ "=" NUMBER ] ";"` -/
def variant : RegularExpression TokenKind :=
  identifier * ending

/-- A keyword, `IDENT "{" { item } "}"`. -/
def block (w : Keyword) (item : RegularExpression TokenKind) : RegularExpression TokenKind :=
  word w * identifier * mark .leftBrace * star item * mark .rightBrace

/-- `message ::= "message" IDENT "{" { field } "}"` -/
def message : RegularExpression TokenKind :=
  block .message field

/-- `enum ::= "enum" IDENT "{" { variant } "}"` -/
def enum : RegularExpression TokenKind :=
  block .enum variant

/-- `declaration ::= importing | message | enum` -/
def declaration : RegularExpression TokenKind :=
  importing + message + enum

/-- `document ::= { declaration } END` -/
def document : RegularExpression TokenKind :=
  star declaration * char .eof

example : [TokenKind.keyword .importing, .string, .punct .semicolon, .eof] ∈ document.matches' := by
  decide

example : [TokenKind.keyword .importing, .string, .eof] ∉ document.matches' := by decide

/-- The words of an expression are exactly the kinds of the tokens that the
values of a type stand for. -/
def Yields {X : Type} (r : RegularExpression TokenKind) (tokens : X → List Token) : Prop :=
  ∀ ts : List Token, ts.map Token.kind ∈ r.matches' ↔ ∃ x, tokens x = ts

namespace Yields

variable {X Y : Type} {r q : RegularExpression TokenKind}
  {tokens : X → List Token} {others : Y → List Token}

/-- A single kind is matched by the single tokens of this kind. -/
theorem char (kind : TokenKind) : Yields (.char kind) fun t : Leaf kind => [t.val] := by
  intro ts
  constructor
  · intro member
    have kinds : ts.map Token.kind = [kind] := member
    obtain ⟨t, rfl, same⟩ := List.map_eq_singleton_iff.mp kinds
    exact ⟨⟨t, same⟩, rfl⟩
  · rintro ⟨t, rfl⟩
    have kinds : [t.val].map Token.kind = [kind] := by rw [List.map_singleton, t.property]
    exact kinds

/-- Expressions one behind the other match the tokens of pairs. A list of kinds that is split is
a list of tokens that is split at the same place. -/
theorem mul (first : Yields r tokens) (second : Yields q others) :
    Yields (r * q) fun pair : X × Y => tokens pair.1 ++ others pair.2 := by
  intro ts
  rw [matches'_mul, Language.mem_mul]
  constructor
  · rintro ⟨a, inFirst, b, inSecond, whole⟩
    obtain ⟨left, right, rfl, rfl, rfl⟩ := List.map_eq_append_iff.mp whole.symm
    obtain ⟨x, rfl⟩ := (first left).mp inFirst
    obtain ⟨y, rfl⟩ := (second right).mp inSecond
    exact ⟨(x, y), rfl⟩
  · rintro ⟨⟨x, y⟩, rfl⟩
    exact ⟨_, (first _).mpr ⟨x, rfl⟩, _, (second _).mpr ⟨y, rfl⟩, List.map_append.symm⟩

/-- One of two expressions matches the tokens of the one or of the other. -/
theorem add (first : Yields r tokens) (second : Yields q others) :
    Yields (r + q) (Sum.elim tokens others) := by
  intro ts
  rw [matches'_add, Language.mem_add, first ts, second ts]
  constructor
  · rintro (⟨x, same⟩ | ⟨y, same⟩)
    · exact ⟨.inl x, same⟩
    · exact ⟨.inr y, same⟩
  · rintro ⟨x | y, same⟩
    · exact .inl ⟨x, same⟩
    · exact .inr ⟨y, same⟩

/-- An expression that may be absent matches what it matches when present, and nothing at
all. -/
theorem optional (present : Yields r tokens) :
    Yields (Grammar.optional r) fun x : Option X => x.elim [] tokens := by
  intro ts
  rw [Grammar.optional, matches'_add, Language.mem_add, present ts, matches'_epsilon,
    Language.mem_one, List.map_eq_nil_iff]
  constructor
  · rintro (⟨x, same⟩ | rfl)
    · exact ⟨some x, same⟩
    · exact ⟨none, rfl⟩
  · rintro ⟨_ | x, same⟩
    · exact .inr same.symm
    · exact .inl ⟨x, same⟩

/-- The parts of a repetition are found one after the other, from the left.

Proof: in one direction by induction on the parts of the word, each of which is the word of one
phrase. In the other the words of the phrases are the parts. -/
theorem star (once : Yields r tokens) : Yields (star r) fun xs : List X => xs.flatMap tokens := by
  intro ts
  rw [matches'_star, Language.mem_kstar]
  constructor
  · rintro ⟨parts, whole, inside⟩
    induction parts generalizing ts with
    | nil =>
      have empty : ts = [] := List.map_eq_nil_iff.mp whole
      exact ⟨[], empty.symm⟩
    | cons part rest ih =>
      rw [List.flatten_cons] at whole
      obtain ⟨left, right, rfl, rfl, further⟩ := List.map_eq_append_iff.mp whole
      obtain ⟨x, rfl⟩ := (once left).mp (inside _ List.mem_cons_self)
      obtain ⟨xs, rfl⟩ := ih right further fun y member => inside y (List.mem_cons_of_mem _ member)
      exact ⟨x :: xs, List.flatMap_cons⟩
  · rintro ⟨xs, rfl⟩
    refine ⟨xs.map fun x => (tokens x).map Token.kind, ?_, ?_⟩
    · rw [List.map_flatMap, List.flatMap_def]
    · intro part member
      obtain ⟨x, -, rfl⟩ := List.mem_map.mp member
      exact (once _).mpr ⟨x, rfl⟩

/-- Phrases may be named differently as long as they stand for the same tokens. -/
theorem rename (yields : Yields r tokens) (forward : X → Y) (back : Y → X)
    (kept : ∀ x, others (forward x) = tokens x) (same : ∀ y, tokens (back y) = others y) :
    Yields r others := by
  intro ts
  rw [yields ts]
  constructor
  · rintro ⟨x, rfl⟩
    exact ⟨forward x, kept x⟩
  · rintro ⟨y, rfl⟩
    exact ⟨back y, same y⟩

end Yields

/-! ## The productions and their phrases -/

open Phrase

/-- Numbers are the tokens of kind integer or float. -/
theorem number_yields : Yields number fun t : NumberLeaf => [t.val] := by
  intro ts
  rw [number, matches'_add, Language.mem_add, Yields.char .integer ts, Yields.char .float ts]
  constructor
  · rintro (⟨⟨t, kind⟩, rfl⟩ | ⟨⟨t, kind⟩, rfl⟩)
    · exact ⟨⟨t, by rw [kind]; rfl⟩, rfl⟩
    · exact ⟨⟨t, by rw [kind]; rfl⟩, rfl⟩
  · rintro ⟨⟨t, isNumber⟩, rfl⟩
    unfold TokenKind.isNumber at isNumber
    split at isNumber
    · next kind => exact .inl ⟨⟨t, kind⟩, rfl⟩
    · next kind => exact .inr ⟨⟨t, kind⟩, rfl⟩
    · cases isNumber

/-- Modifiers are the tokens of three keywords.

Proof: a modifier is one of three keywords, and the expression names the same three. -/
theorem modifier_yields : Yields modifier fun t : ModifierLeaf => [t.val] := by
  intro ts
  rw [modifier, word, word, word, matches'_add, matches'_add, Language.mem_add, Language.mem_add,
    Yields.char (.keyword .required) ts, Yields.char (.keyword .optional) ts,
    Yields.char (.keyword .repeated) ts]
  constructor
  · rintro ((⟨⟨t, kind⟩, rfl⟩ | ⟨⟨t, kind⟩, rfl⟩) | ⟨⟨t, kind⟩, rfl⟩)
    · exact ⟨⟨t, by rw [kind]; rfl⟩, rfl⟩
    · exact ⟨⟨t, by rw [kind]; rfl⟩, rfl⟩
    · exact ⟨⟨t, by rw [kind]; rfl⟩, rfl⟩
  · rintro ⟨⟨t, isModifier⟩, rfl⟩
    cases kind : t.kind with
    | keyword w =>
      rw [kind] at isModifier
      cases w with
      | required => exact .inl (.inl ⟨⟨t, kind⟩, rfl⟩)
      | optional => exact .inl (.inr ⟨⟨t, kind⟩, rfl⟩)
      | repeated => exact .inr ⟨⟨t, kind⟩, rfl⟩
      | message | enum | importing | field => cases isModifier
    | _ =>
      rw [kind] at isModifier
      cases isModifier

/-- A dotted name is an identifier, and pairs of a dot and an identifier behind it. -/
theorem dotted_yields : Yields dotted Dotted.tokens :=
  ((Yields.char .identifier).mul
    ((Yields.char (.punct .dot)).mul (Yields.char .identifier)).star).rename
    (fun x => ⟨x.1, x.2⟩) (fun d => (d.first, d.more)) (fun _ => rfl) (fun _ => rfl)

/-- An ending is what may stand behind a name: an equals sign with a number, and the
semicolon. -/
theorem ending_yields : Yields ending Ending.tokens :=
  (((Yields.char (.punct .equals)).mul number_yields).optional.mul
    (Yields.char (.punct .semicolon))).rename
    (fun x => ⟨x.1, x.2⟩) (fun e => (e.number, e.semicolon)) (fun _ => rfl) (fun _ => rfl)

/-- An import consists of its keyword, a target and the semicolon. The choice between the two
kinds of target becomes the choice of a constructor. -/
theorem importing_yields : Yields importing Importing.tokens := by
  refine (((Yields.char (.keyword .importing)).mul
    (dotted_yields.add (Yields.char .string))).mul (Yields.char (.punct .semicolon))).rename
    (fun x => ⟨x.1.1, x.1.2.elim .dotted .quoted, x.2⟩)
    (fun i => ((i.keyword, i.target.rec .inl .inr), i.semicolon)) ?_ ?_
  · rintro ⟨⟨keyword, name | literal⟩, semicolon⟩ <;> rfl
  · rintro ⟨keyword, name | literal, semicolon⟩ <;> rfl

/-- A field consists of its parts in the order of the grammar. What the expression yields are
nested pairs, and to rename them is to name the parts. -/
theorem field_yields : Yields field Phrase.Field.tokens := by
  refine ((((modifier_yields.star.mul (Yields.char (.keyword .field))).mul
    (Yields.char .identifier)).mul ((Yields.char (.punct .colon)).mul dotted_yields).optional).mul
      ending_yields).rename
    (fun x => ⟨x.1.1.1.1, x.1.1.1.2, x.1.1.2, x.1.2, x.2⟩)
    (fun f => ((((f.modifiers, f.keyword), f.name), f.type), f.ending)) ?_ ?_
  · rintro ⟨⟨⟨⟨modifiers, keyword⟩, name⟩, type⟩, ending⟩
    simp [Phrase.Field.tokens, Phrase.Field.typeTokens, List.map_eq_flatMap]
  · rintro ⟨modifiers, keyword, name, type, ending⟩
    simp [Phrase.Field.tokens, Phrase.Field.typeTokens, List.map_eq_flatMap]

/-- A variant consists of its name and its ending. -/
theorem variant_yields : Yields variant Phrase.Variant.tokens :=
  ((Yields.char .identifier).mul ending_yields).rename
    (fun x => ⟨x.1, x.2⟩) (fun v => (v.name, v.ending)) (fun _ => rfl) (fun _ => rfl)

/-- A block consists of its keyword, a name, and items between braces, if each item is what the
expression of the items yields. -/
theorem block_yields {Item : Type} {item : RegularExpression TokenKind}
    {itemTokens : Item → List Token} (w : Keyword) (items : Yields item itemTokens) :
    Yields (block w item) fun b : Block w Item => b.tokens itemTokens := by
  refine (((((Yields.char (.keyword w)).mul (Yields.char .identifier)).mul
    (Yields.char (.punct .leftBrace))).mul items.star).mul (Yields.char (.punct .rightBrace))).rename
    (fun x => ⟨x.1.1.1.1, x.1.1.1.2, x.1.1.2, x.1.2, x.2⟩)
    (fun b => ((((b.keyword, b.name), b.opening), b.items), b.closing)) ?_ ?_
  · rintro ⟨⟨⟨⟨keyword, name⟩, opening⟩, items⟩, closing⟩
    simp [Block.tokens]
  · rintro ⟨keyword, name, opening, items, closing⟩
    simp [Block.tokens]

/-- A declaration is an import, a message or an enum. -/
theorem declaration_yields : Yields declaration Phrase.Declaration.tokens := by
  refine ((importing_yields.add (block_yields .message field_yields)).add
    (block_yields .enum variant_yields)).rename
    (fun x => x.elim (fun x => x.elim .importing .message) .enum)
    (fun d => d.rec (fun i => .inl (.inl i)) (fun b => .inl (.inr b)) .inr) ?_ ?_
  · rintro ((i | b) | b) <;> rfl
  · rintro (i | b | b) <;> rfl

/-- The words of the grammar are the kinds of lists of declaration phrases, with
the end behind them. -/
theorem document_word_iff (ts : List Token) :
    ts.map Token.kind ++ [.eof] ∈ document.matches'
      ↔ ∃ phrases : List Phrase.Declaration, phrases.flatMap Phrase.Declaration.tokens = ts := by
  rw [← declaration_yields.star ts, document, matches'_mul, Language.mem_mul]
  constructor
  · rintro ⟨front, inside, back, last, whole⟩
    have back_eq : back = [.eof] := last
    subst back_eq
    have same : front = ts.map Token.kind := List.append_cancel_right whole
    exact same ▸ inside
  · intro inside
    exact ⟨_, inside, [.eof], rfl, rfl⟩

end MessageSchema.Grammar
