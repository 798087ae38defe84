import Mathlib.Data.List.Forall2
import MessageSchema.Proofs.Denotation
import MessageSchema.Proofs.Numerals
import MessageSchema.Proofs.Recognition

/-!
# Documents survive being written out

An outline is a document as an author thinks of it: declarations with names,
types and number literals as texts, without places, keywords or marks. It can be
written out as a list of kinds with their texts, and it says by itself which
declarations it stands for and which of its parts cannot be used.

The main statement is a round trip: however the written outline is laid out,
reading it gives exactly the declarations of the outline, in order and one for
one, and exactly the findings that the outline calls for. Places are left out of
the comparison, since an outline has none; nothing else is.
-/

namespace MessageSchema

/-! ## The value of a number literal -/

namespace Literal.Number

/-- The number that an integer literal denotes, however great. -/
def literalValue? (text : List Char) : Option Int :=
  let (negative, parts) := split text
  if parts.wellFormed then
    parts.magnitude?.map fun magnitude : Nat =>
      if negative then -(magnitude : Int) else (magnitude : Int)
  else none

/-- It is the number that the grammar of literals says, and there is none for other texts. -/
theorem literalValue?_eq_some_iff {text : List Char} {v : Int} :
    literalValue? text = some v ↔ Integer text v := by
  rw [integer_iff, literalValue?]
  obtain ⟨negative, parts⟩ := split text
  cases sound : parts.wellFormed with
  | false => simp [sound]
  | true => simp [sound, eq_comm]

/-- Within bounds that are not too wide the limit on magnitudes cannot be felt: both sides
give the integer that the text denotes, if it is within the bounds. -/
theorem integerWithin?_eq {least bound : Int} (text : List Char)
    (lower : -(greatestMagnitude : Int) ≤ least) (upper : bound ≤ greatestMagnitude + 1) :
    integerWithin? least bound text
      = (literalValue? text).filter fun value => least ≤ value && value < bound := by
  apply Option.ext
  intro v
  rw [integerWithin?_eq_some_iff ⟨lower, upper⟩, Option.filter_eq_some_iff,
    literalValue?_eq_some_iff, Bool.and_eq_true, decide_eq_true_eq, decide_eq_true_eq]
  exact ⟨fun within => ⟨within.literal, within.lower, within.upper⟩,
    fun ⟨literal, least, greatest⟩ => ⟨literal, least, greatest⟩⟩

end Literal.Number

/-! ## Outlines -/

namespace Outline

/-- Identifiers that are written with dots between them. -/
structure Dotted where
  first : String
  more : List String

/-- A number literal, and whether it is a token of an integer or of a float. -/
structure Number where
  form : Literal.Number.Form
  lexeme : String

/-- What an import names: identifiers, or a string literal with its quotes. -/
inductive Target where
  | dotted (name : Dotted)
  | quoted (lexeme : String)

/-- A field as its author thinks of it: modifiers, a name, and perhaps a type and a number. -/
structure Field where
  modifiers : List Modifier
  name : String
  type : Option Dotted
  number : Option Number

/-- A variant with its name and, if it has one, its number. -/
structure Variant where
  name : String
  number : Option Number

/-- An import of a target, or a message or an enum with its name and its items. -/
inductive Declaration where
  | importing (target : Target)
  | message (name : String) (fields : List Field)
  | enum (name : String) (variants : List Variant)

/-! ## Writing -/

/-- A token without its place: the kind and the text. -/
abbrev Written := TokenKind × String

/-- A keyword is written as it is spelled. -/
def word (word : Keyword) : Written :=
  (.keyword word, word.text)

/-- A mark is written as it is spelled. -/
def mark (mark : Punct) : Written :=
  (.punct mark, mark.char.toString)

/-- A name is written as an identifier. -/
def identifier (name : String) : Written :=
  (.identifier, name)

/-- The keyword of a modifier. -/
def modifierWord : Modifier → Keyword
  | .required => .required
  | .optional => .optional
  | .repeated => .repeated

namespace Dotted

/-- A dotted name is written with a dot before each name but the first. -/
def written (d : Dotted) : List Written :=
  identifier d.first :: d.more.flatMap fun name => [mark .dot, identifier name]

/-- The identifiers with dots between them, as one text. -/
def text (d : Dotted) : String :=
  ".".intercalate (d.first :: d.more)

end Dotted

namespace Number

/-- A number is written as it stands, as the token of its form. -/
def written (n : Number) : Written :=
  (match n.form with | .integer => .integer | .float => .float, n.lexeme)

/-- The value of a literal. -/
def value? (n : Number) : Option Int :=
  Literal.Number.literalValue? n.lexeme.toList

/-- The tag that a literal gives: its value, if that fits in 32 bits without sign. -/
def tag? (n : Number) : Option UInt32 :=
  (n.value?.filter fun value : Int => 0 ≤ value && value < Nat.pow 2 32).map fun value =>
    .ofNat value.toNat

/-- The value that a literal gives to a variant, if it fits in 64 bits with sign. -/
def signed? (n : Number) : Option Int64 :=
  (n.value?.filter fun value : Int => -(Nat.pow 2 63) ≤ value && value < Nat.pow 2 63).map .ofInt

end Number

/-- The end of a field or a variant. -/
def ending (number : Option Number) : List Written :=
  (number.elim [] fun n => [mark .equals, n.written]) ++ [mark .semicolon]

/-- A target is written as a dotted name or as the string that it is. -/
def Target.written : Target → List Written
  | .dotted name => name.written
  | .quoted lexeme => [(.string, lexeme)]

/-- A field is written with its modifiers first, then the keyword and the name, the type behind
a colon, and the ending. -/
def Field.written (f : Field) : List Written :=
  f.modifiers.map (fun m => word (modifierWord m))
    ++ word .field :: identifier f.name
    :: (f.type.elim [] fun type => mark .colon :: type.written) ++ ending f.number

/-- A variant is written as its name and the ending. -/
def Variant.written (v : Variant) : List Written :=
  identifier v.name :: ending v.number

/-- A keyword, a name, and items between braces. -/
def block (keyword : Keyword) (name : String) (items : List Written) : List Written :=
  word keyword :: identifier name :: mark .leftBrace :: items ++ [mark .rightBrace]

/-- A declaration is written with its keyword: an import up to the semicolon, a message or enum
with its items between braces. -/
def Declaration.written : Declaration → List Written
  | .importing target => word .importing :: target.written ++ [mark .semicolon]
  | .message name fields => block .message name (fields.flatMap Field.written)
  | .enum name variants => block .enum name (variants.flatMap Variant.written)

/-! ## Meaning -/

/-- The name of an import: a dotted one is joined, a quoted one decoded. -/
def Target.text : Target → String
  | .dotted name => name.text
  | .quoted lexeme => String.ofList (Literal.Quoted.decode lexeme.toList)

/-- The field of an outline. Its first modifier counts. -/
def Field.denotes (f : Field) : MessageSchema.Field where
  name := f.name
  nameSpan := .origin
  modifier := f.modifiers.head?
  typeRef := f.type.map fun type => ⟨type.text, .unresolved, .origin⟩
  tag := f.number.bind Number.tag?
  tagSpan := f.number.map fun _ => .origin
  span := .origin

/-- The variant of the document, without its places. Whether its value has a place is told by
whether it has a number. -/
def Variant.denotes (v : Variant) : MessageSchema.Variant where
  name := v.name
  nameSpan := .origin
  value := v.number.bind Number.signed?
  valueSpan := v.number.map fun _ => .origin
  span := .origin

/-- The declaration of an outline, with every place at the origin. -/
def Declaration.denotes : Declaration → MessageSchema.Declaration
  | .importing target => .importing ⟨target.text, .origin, .unchecked, .origin⟩
  | .message name fields => .message ⟨name, .origin, fields.map Field.denotes, .origin⟩
  | .enum name variants => .enum ⟨name, .origin, variants.map Variant.denotes, .origin⟩

/-- A modifier behind the first one, a type that is missing, a number that is no tag. -/
def Field.problems (f : Field) : List Problem :=
  (f.modifiers.drop 1).map (fun m => .conflictingModifiers f.name (modifierWord m).text)
    ++ (if f.type.isNone then [.missingType f.name] else [])
    ++ (f.number.filter fun n => n.tag?.isNone).toList.map fun n => .invalidTag n.lexeme

/-- A number that is missing, or one that is no value. -/
def Variant.problems (v : Variant) : List Problem :=
  (if v.number.isNone then [.missingVariantValue v.name] else [])
    ++ (v.number.filter fun n => n.signed?.isNone).toList.map fun n => .invalidEnumValue n.lexeme

/-- A quoted name of blanks names nothing. -/
def Target.problems : Target → List Problem
  | .dotted _ => []
  | .quoted lexeme =>
    if Text.isBlankText (Target.quoted lexeme).text then [.emptyImportName] else []

/-- The findings that an outline calls for, in its order. -/
def Declaration.problems : Declaration → List Problem
  | .importing target => target.problems
  | .message _ fields => fields.flatMap Field.problems
  | .enum _ variants => variants.flatMap Variant.problems

end Outline

/-! ## Places left out -/

/-- What a token is, without its place. -/
def Token.written (t : Token) : Outline.Written :=
  (t.kind, t.lexeme)

/-- A type reference with its place left out. -/
def TypeRef.unplaced (t : TypeRef) : TypeRef :=
  { t with span := .origin }

/-- A field with every place at the origin. Whether there is a tag stays told. -/
def Field.unplaced (f : Field) : Field :=
  { f with
    nameSpan := .origin
    typeRef := f.typeRef.map TypeRef.unplaced
    tagSpan := f.tagSpan.map fun _ => .origin
    span := .origin }

/-- A variant with its places left out. -/
def Variant.unplaced (v : Variant) : Variant :=
  { v with
    nameSpan := .origin
    valueSpan := v.valueSpan.map fun _ => .origin
    span := .origin }

/-- A declaration with every place at the origin. -/
def Declaration.unplaced : Declaration → Declaration
  | .importing i => .importing { i with nameSpan := .origin, span := .origin }
  | .message m => .message ⟨m.name, .origin, m.fields.map Field.unplaced, .origin⟩
  | .enum e => .enum ⟨e.name, .origin, e.variants.map Variant.unplaced, .origin⟩

/-! ## Phrases that are written as an outline says -/

namespace Phrase

/-- A dotted name has the texts of an outline. -/
def Dotted.Spells (d : Dotted) (o : Outline.Dotted) : Prop :=
  d.tokens.map Token.written = o.written

/-- An ending has the number of an outline. -/
def Ending.Spells (e : Ending) (number : Option Outline.Number) : Prop :=
  e.number?.map Token.written = number.map Outline.Number.written

/-- A target spells the one of an outline if it is of the same kind and has the same text. -/
inductive Target.Spells : Target → Outline.Target → Prop
  | dotted {name : Dotted} {o : Outline.Dotted} (same : name.Spells o) :
      Spells (.dotted name) (.dotted o)
  | quoted {literal : Leaf .string} {lexeme : String} (same : literal.val.lexeme = lexeme) :
      Spells (.quoted literal) (.quoted lexeme)

/-- A field spells the one of an outline if its parts do. -/
structure Field.Spells (f : Field) (o : Outline.Field) : Prop where
  modifiers : f.modifiers.map (·.val.written)
    = o.modifiers.map fun m => Outline.word (Outline.modifierWord m)
  name : f.name.val.lexeme = o.name
  type : f.type.map (·.2.tokens.map Token.written) = o.type.map Outline.Dotted.written
  ending : f.ending.Spells o.number

/-- A variant spells the one of an outline if its name and its ending do. -/
structure Variant.Spells (v : Variant) (o : Outline.Variant) : Prop where
  name : v.name.val.lexeme = o.name
  ending : v.ending.Spells o.number

/-- A declaration spells the one of an outline if it is of the same kind, has the same name, and
its items spell those of the outline one by one. -/
inductive Declaration.Spells : Declaration → Outline.Declaration → Prop
  | importing {i : Importing} {target : Outline.Target} (same : i.target.Spells target) :
      Spells (.importing i) (.importing target)
  | message {b : Block .message Field} {fields : List Outline.Field}
      (same : List.Forall₂ Field.Spells b.items fields) :
      Spells (.message b) (.message b.name.val.lexeme fields)
  | enum {b : Block .enum Variant} {variants : List Outline.Variant}
      (same : List.Forall₂ Variant.Spells b.items variants) :
      Spells (.enum b) (.enum b.name.val.lexeme variants)

/-! ### Reading what was written -/

/-- The first token of a written list, and the others. -/
theorem exists_leaf {kind : TokenKind} {text : String} {written : List Outline.Written}
    {tokens : List Token} (same : tokens.map Token.written = (kind, text) :: written) :
    ∃ (leaf : Leaf kind) (rest : List Token),
      tokens = leaf.val :: rest ∧ leaf.val.lexeme = text ∧ rest.map Token.written = written := by
  obtain ⟨t, rest, rfl, first, others⟩ := List.map_eq_cons_iff.mp same
  obtain ⟨rfl, rfl⟩ := Prod.mk.inj first
  exact ⟨⟨t, rfl⟩, rest, rfl, rfl, others⟩

/-- Tokens that are written like a dotted name make up one that spells it. The pairs behind the
first identifier are found by induction on the names. -/
theorem Dotted.exists_of_written {o : Outline.Dotted} {tokens : List Token}
    (same : tokens.map Token.written = o.written) :
    ∃ d : Dotted, d.tokens = tokens ∧ d.Spells o := by
  suffices pairs : ∀ (names : List String) (tokens : List Token),
      tokens.map Token.written
        = names.flatMap (fun name => [Outline.mark .dot, Outline.identifier name]) →
      ∃ more, tailTokens more = tokens by
    obtain ⟨first, rest, rfl, -, others⟩ := exists_leaf same
    obtain ⟨more, rfl⟩ := pairs _ _ others
    exact ⟨⟨first, more⟩, rfl, same⟩
  intro names
  induction names with
  | nil =>
    intro tokens none_left
    exact ⟨[], (List.map_eq_nil_iff.mp none_left).symm⟩
  | cons name names ih =>
    intro tokens written
    obtain ⟨dot, rest, rfl, -, behind⟩ := exists_leaf written
    obtain ⟨identifier, rest, rfl, -, others⟩ := exists_leaf behind
    obtain ⟨more, rfl⟩ := ih rest others
    exact ⟨(dot, identifier) :: more, rfl⟩

/-- Tokens that are written like an ending make up one that spells it. The form of the number
tells that its token is a number. -/
theorem Ending.exists_of_written {number : Option Outline.Number} {tokens : List Token}
    (same : tokens.map Token.written = Outline.ending number) :
    ∃ e : Ending, e.tokens = tokens ∧ e.Spells number := by
  cases number with
  | none =>
    obtain ⟨semicolon, rest, rfl, -, others⟩ := exists_leaf same
    cases List.map_eq_nil_iff.mp others
    exact ⟨⟨none, semicolon⟩, rfl, rfl⟩
  | some n =>
    obtain ⟨equals, rest, rfl, -, behind⟩ := exists_leaf same
    obtain ⟨literal, rest, rfl, text, last⟩ := exists_leaf behind
    obtain ⟨semicolon, rest, rfl, -, others⟩ := exists_leaf last
    cases List.map_eq_nil_iff.mp others
    have isNumber : literal.val.kind.isNumber = true := by
      rw [literal.property]
      cases n.form <;> rfl
    refine ⟨⟨some (equals, ⟨literal.val, isNumber⟩), semicolon⟩, rfl, ?_⟩
    exact congrArg some (Prod.ext literal.property text)

/-- Tokens that are written like a target make up one of the same kind. -/
theorem Target.exists_of_written {o : Outline.Target} {tokens : List Token}
    (same : tokens.map Token.written = o.written) :
    ∃ target : Target, target.tokens = tokens ∧ target.Spells o := by
  cases o with
  | dotted name =>
    obtain ⟨d, rfl, spells⟩ := Dotted.exists_of_written same
    exact ⟨.dotted d, rfl, .dotted spells⟩
  | quoted lexeme =>
    obtain ⟨literal, rest, rfl, text, others⟩ := exists_leaf same
    cases List.map_eq_nil_iff.mp others
    exact ⟨.quoted literal, rfl, .quoted text⟩

/-- The modifiers in front of a field, however many. -/
theorem exists_modifiers {modifiers : List Modifier} {tokens : List Token}
    (same : tokens.map Token.written
      = modifiers.map fun m => Outline.word (Outline.modifierWord m)) :
    ∃ leaves : List ModifierLeaf, leaves.map Subtype.val = tokens := by
  induction modifiers generalizing tokens with
  | nil => exact ⟨[], (List.map_eq_nil_iff.mp same).symm⟩
  | cons m modifiers ih =>
    obtain ⟨leaf, rest, rfl, -, others⟩ := exists_leaf same
    obtain ⟨leaves, rfl⟩ := ih others
    have isModifier : leaf.val.kind.isModifier = true := by
      rw [leaf.property]
      cases m <;> rfl
    exact ⟨⟨leaf.val, isModifier⟩ :: leaves, rfl⟩

/-- Tokens that are written like a type behind a colon make it up, and no tokens make up
none. -/
theorem exists_type {o : Option Outline.Dotted} {tokens : List Token}
    (same : tokens.map Token.written
      = o.elim [] fun type => Outline.mark .colon :: type.written) :
    ∃ type : Option (Leaf (.punct .colon) × Dotted),
      (type.elim [] fun pair => pair.1.val :: pair.2.tokens) = tokens
        ∧ type.map (·.2.tokens.map Token.written) = o.map Outline.Dotted.written := by
  cases o with
  | none => exact ⟨none, (List.map_eq_nil_iff.mp same).symm, rfl⟩
  | some name =>
    obtain ⟨colon, rest, rfl, -, others⟩ := exists_leaf same
    obtain ⟨d, rfl, spells⟩ := Dotted.exists_of_written others
    exact ⟨some (colon, d), rfl, congrArg some spells⟩

/-- Tokens that are written like a field make one up. They are taken apart in the order in which
a field is written, each part giving back what is left behind it. -/
theorem Field.exists_of_written {o : Outline.Field} {tokens : List Token}
    (same : tokens.map Token.written = o.written) :
    ∃ f : Field, f.tokens = tokens ∧ f.Spells o := by
  obtain ⟨leading, last, rfl, written, endWritten⟩ := List.map_eq_append_iff.mp same
  obtain ⟨first, middle, rfl, firstWritten, middleWritten⟩ := List.map_eq_append_iff.mp written
  obtain ⟨modifiers, rfl⟩ := exists_modifiers firstWritten
  obtain ⟨keyword, rest, rfl, -, behind⟩ := exists_leaf middleWritten
  obtain ⟨name, rest, rfl, text, typeWritten⟩ := exists_leaf behind
  obtain ⟨type, rfl, typeSpells⟩ := exists_type typeWritten
  obtain ⟨ending, rfl, endSpells⟩ := Ending.exists_of_written endWritten
  refine ⟨⟨modifiers, keyword, name, type, ending⟩, rfl, ?_, text, typeSpells, endSpells⟩
  rw [← firstWritten, List.map_map]
  rfl

/-- Tokens that are written like a variant make one up. -/
theorem Variant.exists_of_written {o : Outline.Variant} {tokens : List Token}
    (same : tokens.map Token.written = o.written) :
    ∃ v : Variant, v.tokens = tokens ∧ v.Spells o := by
  obtain ⟨name, rest, rfl, text, endWritten⟩ := exists_leaf same
  obtain ⟨ending, rfl, endSpells⟩ := Ending.exists_of_written endWritten
  exact ⟨⟨name, ending⟩, rfl, text, endSpells⟩

/-- A written list of items is read item by item. -/
theorem exists_items {Item Outlined : Type} {itemTokens : Item → List Token}
    {written : Outlined → List Outline.Written} {Spells : Item → Outlined → Prop}
    (each : ∀ {o : Outlined} {tokens : List Token}, tokens.map Token.written = written o →
      ∃ item, itemTokens item = tokens ∧ Spells item o)
    {outlines : List Outlined} {tokens : List Token}
    (same : tokens.map Token.written = outlines.flatMap written) :
    ∃ items, items.flatMap itemTokens = tokens ∧ List.Forall₂ Spells items outlines := by
  induction outlines generalizing tokens with
  | nil => exact ⟨[], (List.map_eq_nil_iff.mp same).symm, .nil⟩
  | cons o outlines ih =>
    obtain ⟨first, rest, rfl, firstWritten, others⟩ := List.map_eq_append_iff.mp same
    obtain ⟨item, rfl, spells⟩ := each firstWritten
    obtain ⟨items, rfl, allSpell⟩ := ih others
    exact ⟨item :: items, rfl, .cons spells allSpell⟩

/-- Tokens that are written like a block make one up, if those of each item do. -/
theorem Block.exists_of_written {word : Keyword} {Item Outlined : Type}
    {itemTokens : Item → List Token} {written : Outlined → List Outline.Written}
    {Spells : Item → Outlined → Prop}
    (each : ∀ {o : Outlined} {tokens : List Token}, tokens.map Token.written = written o →
      ∃ item, itemTokens item = tokens ∧ Spells item o)
    {name : String} {outlines : List Outlined} {tokens : List Token}
    (same : tokens.map Token.written = Outline.block word name (outlines.flatMap written)) :
    ∃ b : Block word Item, b.tokens itemTokens = tokens ∧ b.name.val.lexeme = name
      ∧ List.Forall₂ Spells b.items outlines := by
  obtain ⟨keyword, rest, rfl, -, behind⟩ := exists_leaf same
  obtain ⟨name, rest, rfl, text, behind⟩ := exists_leaf behind
  obtain ⟨opening, rest, rfl, -, behind⟩ := exists_leaf behind
  obtain ⟨inside, last, rfl, itemsWritten, lastWritten⟩ := List.map_eq_append_iff.mp behind
  obtain ⟨items, rfl, spells⟩ := exists_items each itemsWritten
  obtain ⟨closing, rest, rfl, -, others⟩ := exists_leaf lastWritten
  cases List.map_eq_nil_iff.mp others
  exact ⟨⟨keyword, name, opening, items, closing⟩, rfl, text, spells⟩

/-- Tokens that are written like a declaration make up one of the same kind. -/
theorem Declaration.exists_of_written {o : Outline.Declaration} {tokens : List Token}
    (same : tokens.map Token.written = o.written) :
    ∃ phrase : Declaration, phrase.tokens = tokens ∧ phrase.Spells o := by
  cases o with
  | importing target =>
    obtain ⟨keyword, rest, rfl, -, behind⟩ := exists_leaf same
    obtain ⟨inside, last, rfl, targetWritten, lastWritten⟩ := List.map_eq_append_iff.mp behind
    obtain ⟨target, rfl, spells⟩ := Target.exists_of_written targetWritten
    obtain ⟨semicolon, rest, rfl, -, others⟩ := exists_leaf lastWritten
    cases List.map_eq_nil_iff.mp others
    exact ⟨.importing ⟨keyword, target, semicolon⟩, rfl, .importing spells⟩
  | message name fields =>
    obtain ⟨b, rfl, rfl, spells⟩ := Block.exists_of_written Field.exists_of_written same
    exact ⟨.message b, rfl, .message spells⟩
  | enum name variants =>
    obtain ⟨b, rfl, rfl, spells⟩ := Block.exists_of_written Variant.exists_of_written same
    exact ⟨.enum b, rfl, .enum spells⟩

/-! ### What a written outline denotes -/

/-- Joining the texts of a written dotted name puts the dots between the names. -/
theorem join_written (o : Outline.Dotted) : String.join (o.written.map Prod.snd) = o.text := by
  obtain ⟨first, more⟩ := o
  induction more generalizing first with
  | nil => simp [Outline.Dotted.written, Outline.Dotted.text, Outline.identifier]
  | cons name more ih =>
    have others := ih name
    simp only [Outline.Dotted.written, Outline.Dotted.text, List.map_cons, List.flatMap_cons,
      List.cons_append, List.nil_append, String.join_cons, String.intercalate_cons_cons] at others ⊢
    rw [others, String.append_assoc]
    rfl

/-- A dotted name that spells another one has its text. -/
theorem Dotted.text_of_spells {d : Dotted} {o : Outline.Dotted} (spells : d.Spells o) :
    d.text = o.text := by
  have lexemes : d.tokens.map (·.lexeme) = o.written.map Prod.snd := by
    rw [← spells, List.map_map]
    rfl
  rw [Dotted.text, lexemes, join_written]

/-- The tag that is read off a lexeme is the tag that the number has. -/
theorem tagOf?_lexeme (n : Outline.Number) : Node.tagOf? n.lexeme = n.tag? :=
  congrArg (Option.map _) (Literal.Number.integerWithin?_eq _ (by decide) (by decide))

/-- The value that is read off a lexeme is the value that the number has. -/
theorem valueOf?_lexeme (n : Outline.Number) : Node.valueOf? n.lexeme = n.signed? :=
  congrArg (Option.map _) (Literal.Number.integerWithin?_eq _ (by decide) (by decide))

namespace Ending

variable {e : Ending} {number : Option Outline.Number}

/-- What is read off the text of a number can be told from the outline. -/
theorem bind_of_spells {α : Type} (spells : e.Spells number) {read : String → Option α}
    {meaning : Outline.Number → Option α} (same : ∀ n, read n.lexeme = meaning n) :
    (e.number?.bind fun t => read t.lexeme) = number.bind meaning := by
  have texts := congrArg (Option.bind · fun written => read written.2) spells
  simp only [Option.bind_map, Function.comp_def] at texts
  rw [show meaning = fun n => read n.lexeme from funext fun n => (same n).symm]
  exact texts

/-- An ending has a number exactly if the outline has one. -/
theorem isNone_of_spells (spells : e.Spells number) : e.number?.isNone = number.isNone := by
  have present := congrArg Option.isNone spells
  simpa only [Option.isNone_map] using present

/-- The place of a number, when places are left out, is there exactly if the number is. -/
theorem map_origin_of_spells (spells : e.Spells number) :
    (e.number?.map fun _ => Span.origin) = number.map fun _ => Span.origin := by
  have present := congrArg (Option.map fun _ => Span.origin) spells
  simpa only [Option.map_map, Function.comp_def] using present

/-- The findings about a number are about the number of the outline. -/
theorem problems_of_spells (spells : e.Spells number) (usable : String → Bool)
    (refused : Outline.Number → Bool) (problem : String → Problem)
    (same : ∀ n, (!usable n.lexeme) = refused n) :
    ((e.number?.filter fun t => !usable t.lexeme).toList.map
        fun t => (⟨problem t.lexeme, t.span⟩ : Diagnostic)).map Diagnostic.problem
      = (number.filter refused).toList.map fun n => problem n.lexeme := by
  unfold Ending.Spells at spells
  cases given : e.number? with
  | none =>
    rw [given] at spells
    cases number with
    | none => rfl
    | some n => exact nomatch spells
  | some t =>
    rw [given] at spells
    cases number with
    | none => exact nomatch spells
    | some n =>
      have text : t.lexeme = n.lexeme := congrArg Prod.snd (Option.some.inj spells)
      simp only [Option.filter, text, same]
      cases refused n <;> simp [text]

end Ending

namespace Field

variable {f : Field} {o : Outline.Field}

/-- The modifiers that are read off a field are those of the outline, as their keywords differ
from one another. -/
theorem Spells.kinds (spells : f.Spells o) :
    (f.modifiers.map fun m => Node.modifierOf m.val.kind) = o.modifiers := by
  have read : ∀ m : Modifier, Node.modifierOf (.keyword (Outline.modifierWord m)) = m := by
    intro m
    cases m <;> rfl
  have kinds := congrArg (List.map fun written => Node.modifierOf written.1) spells.modifiers
  simp only [List.map_map, Function.comp_def] at kinds
  calc (f.modifiers.map fun m => Node.modifierOf m.val.kind)
      = o.modifiers.map fun m => Node.modifierOf (.keyword (Outline.modifierWord m)) := kinds
    _ = o.modifiers := by simp only [read, List.map_id']

/-- The modifiers of a field have the texts of their keywords. -/
theorem Spells.lexemes (spells : f.Spells o) :
    (f.modifiers.map fun m => m.val.lexeme)
      = o.modifiers.map fun m => (Outline.modifierWord m).text := by
  have texts := congrArg (List.map Prod.snd) spells.modifiers
  simp only [List.map_map, Function.comp_def] at texts
  exact texts

/-- A written field denotes the field of the outline.

Proof: part by part. The modifiers, the type, the name and the number of the field are those of
the outline. -/
theorem Spells.toField (spells : f.Spells o) : f.node.toField.unplaced = o.denotes := by
  have first : (f.modifiers.head?.map fun m => Node.modifierOf m.val.kind) = o.modifiers.head? := by
    rw [← List.head?_map, spells.kinds]
  have type : ((f.type.map fun pair => (⟨pair.2.text, .unresolved, pair.2.node.span⟩ : TypeRef)).map
      TypeRef.unplaced) = o.type.map fun type => ⟨type.text, .unresolved, .origin⟩ := by
    have texts := spells.type
    cases given : f.type with
    | none =>
      rw [given] at texts
      cases outlined : o.type with
      | none => rfl
      | some name => exact nomatch outlined ▸ texts
    | some pair =>
      rw [given] at texts
      cases outlined : o.type with
      | none => exact nomatch outlined ▸ texts
      | some name =>
        rw [outlined] at texts
        have same : pair.2.Spells name := Option.some.inj texts
        simp [TypeRef.unplaced, Dotted.text_of_spells same]
  have tag := Ending.bind_of_spells spells.ending tagOf?_lexeme
  have tagSpan := Ending.map_origin_of_spells spells.ending
  simp only [toField_node, MessageSchema.Field.unplaced, Outline.Field.denotes, first, type,
    spells.name, tag, Option.map_map, Function.comp_def, tagSpan]

/-- A written field has the findings that the outline calls for. -/
theorem Spells.fieldFindings (spells : f.Spells o) (sound : ∀ t ∈ f.ending.number?, t.fault = none) :
    f.node.fieldFindings.map Diagnostic.problem = o.problems := by
  have untyped : f.type.isNone = o.type.isNone := by
    have present := congrArg Option.isNone spells.type
    simpa only [Option.isNone_map] using present
  have conflicts : (f.modifiers.drop 1).map (fun m => m.val.lexeme)
      = (o.modifiers.drop 1).map fun m => (Outline.modifierWord m).text := by
    rw [List.map_drop, List.map_drop, spells.lexemes]
  have number := Ending.problems_of_spells spells.ending (fun lexeme => (Node.tagOf? lexeme).isSome)
    (fun n => n.tag?.isNone) .invalidTag fun n => by simp [tagOf?_lexeme]
  have conflicting := congrArg (List.map fun text => Problem.conflictingModifiers o.name text) conflicts
  simp only [List.map_map, Function.comp_def] at conflicting
  rw [fieldFindings_node f sound, Outline.Field.problems, List.map_append, List.map_append, number,
    untyped, spells.name, ← conflicting, List.map_map]
  cases o.type <;> rfl

end Field

namespace Variant

variable {v : Variant} {o : Outline.Variant}

/-- A written variant denotes the variant of the outline. -/
theorem Spells.toVariant (spells : v.Spells o) : v.node.toVariant.unplaced = o.denotes := by
  have value := Ending.bind_of_spells spells.ending valueOf?_lexeme
  have valueSpan := Ending.map_origin_of_spells spells.ending
  simp only [toVariant_node, MessageSchema.Variant.unplaced, Outline.Variant.denotes, spells.name,
    value, Option.map_map, Function.comp_def, valueSpan]

/-- A written variant has the findings that the outline calls for. -/
theorem Spells.variantFindings (spells : v.Spells o)
    (sound : ∀ t ∈ v.ending.number?, t.fault = none) :
    v.node.variantFindings.map Diagnostic.problem = o.problems := by
  have number := Ending.problems_of_spells spells.ending (fun lexeme => (Node.valueOf? lexeme).isSome)
    (fun n => n.signed?.isNone) .invalidEnumValue fun n => by simp [valueOf?_lexeme]
  have missing := Ending.isNone_of_spells spells.ending
  rw [variantFindings_node v sound, Outline.Variant.problems, List.map_append, number, missing,
    spells.name]
  cases o.number <;> rfl

end Variant

namespace Importing

variable {i : Importing} {o : Outline.Target}

/-- A written import denotes the import of the outline. -/
theorem text_of_spells (spells : i.target.Spells o) : i.text = o.text := by
  obtain ⟨keyword, target, semicolon⟩ := i
  cases (show target.Spells o from spells) with
  | dotted same => exact Dotted.text_of_spells same
  | quoted same => exact congrArg (fun text => String.ofList (Literal.Quoted.decode text.toList)) same

/-- What is found wrong with an import is what the outline says is wrong with its target. Only a
string can be wrong, when it is empty. -/
theorem problems_of_spells (spells : i.target.Spells o)
    (sound : ∀ t ∈ i.target.tokens, t.fault = none) :
    i.node.importFindings.map Diagnostic.problem = o.problems := by
  rw [importFindings_node i sound, text_of_spells spells]
  obtain ⟨keyword, target, semicolon⟩ := i
  cases (show target.Spells o from spells) with
  | dotted same => rfl
  | quoted same =>
    simp only [Outline.Target.problems, apply_ite (List.map Diagnostic.problem)]
    rfl

end Importing

/-- Items that are related one for one give the same list of results. -/
theorem map_eq_of_forall₂ {α β γ : Type} {R : α → β → Prop} {f : α → γ} {g : β → γ}
    {as : List α} {bs : List β} (related : List.Forall₂ R as bs)
    (each : ∀ a ∈ as, ∀ b, R a b → f a = g b) : as.map f = bs.map g := by
  induction related with
  | nil => rfl
  | @cons a b as bs first others ih =>
    rw [List.map_cons, List.map_cons, each a List.mem_cons_self b first,
      ih fun x member => each x (List.mem_cons_of_mem _ member)]

namespace Declaration

variable {phrase : Declaration} {o : Outline.Declaration}

/-- A written declaration denotes the declaration of the outline.

Proof: by the kind of the declaration, item by item. -/
theorem Spells.toDeclaration (spells : phrase.Spells o)
    (sound : ∀ t ∈ phrase.tokens, t.fault = none) :
    phrase.node.toDeclaration?.map MessageSchema.Declaration.unplaced = some o.denotes := by
  rw [toDeclaration?_node]
  cases spells with
  | @importing i target same =>
    have trusted := i.importStatus_node fun t member => sound t (Importing.target_mem member)
    have text := i.importName_text.trans (Importing.text_of_spells same)
    simp only [Option.map_some, MessageSchema.Declaration.unplaced, Node.toImport, text, trusted,
      Outline.Declaration.denotes]
  | @message b fields same =>
    have each : b.items.map (fun f => f.node.toField.unplaced) = fields.map Outline.Field.denotes :=
      map_eq_of_forall₂ same fun f _ o spells => spells.toField
    simp only [Option.map_some, MessageSchema.Declaration.unplaced, List.map_map,
      Outline.Declaration.denotes, ← each]
    rfl
  | @enum b variants same =>
    have each : b.items.map (fun v => v.node.toVariant.unplaced)
        = variants.map Outline.Variant.denotes :=
      map_eq_of_forall₂ same fun v _ o spells => spells.toVariant
    simp only [Option.map_some, MessageSchema.Declaration.unplaced, List.map_map,
      Outline.Declaration.denotes, ← each]
    rfl

/-- A written declaration has the findings that the outline calls for.

Proof: by the kind of the declaration, where the findings of a block are those of its items one
after the other. -/
theorem Spells.declarationFindings (spells : phrase.Spells o)
    (sound : ∀ t ∈ phrase.tokens, t.fault = none) :
    phrase.node.declarationFindings.map Diagnostic.problem = o.problems := by
  rw [declarationFindings_node]
  cases spells with
  | @importing i target same =>
    exact Importing.problems_of_spells same fun t member => sound t (Importing.target_mem member)
  | @message b fields same =>
    have each : b.items.map (fun f => f.node.fieldFindings.map Diagnostic.problem)
        = fields.map Outline.Field.problems :=
      map_eq_of_forall₂ same fun f member o spells =>
        spells.fieldFindings fun t given =>
          sound t (Block.mem_tokens member (Field.number?_mem given))
    rw [List.map_flatMap, List.flatMap_def, each]
    rfl
  | @enum b variants same =>
    have each : b.items.map (fun v => v.node.variantFindings.map Diagnostic.problem)
        = variants.map Outline.Variant.problems :=
      map_eq_of_forall₂ same fun v member o spells =>
        spells.variantFindings fun t given =>
          sound t (Block.mem_tokens member (Variant.number?_mem given))
    rw [List.map_flatMap, List.flatMap_def, each]
    rfl

end Declaration

end Phrase

/-! ## The round trip -/

/-- Whatever layout stands between its tokens, a written outline without lexical
faults is read as the declarations of the outline, in order and one for one; the
grammar finds nothing, and the findings about the declarations are exactly those
that the outline calls for, in its order before they are sorted by place.

Proof: tokens that are written like the outline make up phrases that spell it, declaration by
declaration. Reading phrases gives the tree of their nodes. What such a node denotes, and what
is found in it, is then compared with the outline one phrase at a time. -/
theorem read_written_outline (outline : List Outline.Declaration) (tokens : List Token)
    (name : String)
    (written : (significant tokens).map Token.written
      = outline.flatMap Outline.Declaration.written)
    (sound : ∀ t ∈ significant tokens, t.fault = none) :
    ((parse tokens).tree.toDocument name).declarations.map Declaration.unplaced
        = outline.map Outline.Declaration.denotes
      ∧ (parse tokens).tree.documentFindings.map Diagnostic.problem
        = outline.flatMap Outline.Declaration.problems
      ∧ ((parse tokens).tree.documentDiagnostics.map Diagnostic.problem).Perm
        (outline.flatMap Outline.Declaration.problems)
      ∧ (parse tokens).findings = tokenFindings tokens := by
  obtain ⟨phrases, seen, spells⟩ := Phrase.exists_items Phrase.Declaration.exists_of_written written
  have faultless : ∀ phrase ∈ phrases, ∀ t ∈ phrase.tokens, t.fault = none := by
    intro phrase member t inside
    exact sound t (seen ▸ List.mem_flatMap.mpr ⟨phrase, member, inside⟩)
  have findings : (parse tokens).tree.documentFindings.map Diagnostic.problem
      = outline.flatMap Outline.Declaration.problems := by
    have each : phrases.map (fun phrase => phrase.node.declarationFindings.map Diagnostic.problem)
        = outline.map Outline.Declaration.problems :=
      Phrase.map_eq_of_forall₂ spells fun phrase member o same =>
        same.declarationFindings (faultless phrase member)
    rw [parse_phrases phrases seen.symm, Node.documentFindings, nodes_documentNode_phrases,
      List.flatMap_map, List.map_flatMap, List.flatMap_def, each]
    rfl
  refine ⟨?_, findings, ?_, ?_⟩
  · have each : phrases.map (fun phrase =>
        phrase.node.toDeclaration?.map MessageSchema.Declaration.unplaced)
        = outline.map fun o => some o.denotes :=
      Phrase.map_eq_of_forall₂ spells fun phrase member o same =>
        same.toDeclaration (faultless phrase member)
    have found := congrArg (List.filterMap id) each
    rw [List.filterMap_map, List.filterMap_map] at found
    rw [parse_phrases phrases seen.symm, Node.toDocument, nodes_documentNode_phrases, List.filterMap_map,
      List.map_filterMap]
    exact found.trans (congrFun List.filterMap_eq_map' outline)
  · rw [← findings]
    exact (Diagnostic.sorted_perm _).map _
  · rw [parse_phrases phrases seen.symm]

/-- An import, a message whose field has two modifiers, no type and a tag that is
too great, and an enum with a variant of no value. -/
def sampleOutline : List Outline.Declaration :=
  [.importing (.dotted ⟨"base", ["types"]⟩),
    .message "M" [⟨[.optional, .repeated], "x", none, some ⟨.integer, "0x1_0000_0000"⟩⟩,
      ⟨[], "y", some ⟨"base", ["types", "T"]⟩, some ⟨.integer, "7"⟩⟩],
    .enum "E" [⟨"A", some ⟨.integer, "-1"⟩⟩, ⟨"B", none⟩]]

/-- The tokens of an outline, with a blank behind each. -/
def laidOut (outline : List Outline.Declaration) : List Token :=
  (outline.flatMap Outline.Declaration.written).flatMap fun written =>
    [⟨written.1, written.2, .origin, none⟩, ⟨.whitespace, " ", .origin, none⟩]

/-- An outline with two modifiers, no type, a tag that is too large and a variant without a
value: its declarations come back, with one finding for each of these. -/
theorem read_sampleOutline :
    (significant (laidOut sampleOutline)).map Token.written
        = sampleOutline.flatMap Outline.Declaration.written
      ∧ (∀ t ∈ significant (laidOut sampleOutline), t.fault = none)
      ∧ ((parse (laidOut sampleOutline)).tree.toDocument "sample").declarations.map
          Declaration.unplaced = sampleOutline.map Outline.Declaration.denotes
      ∧ (parse (laidOut sampleOutline)).tree.documentFindings.map Diagnostic.problem
        = [.conflictingModifiers "x" "repeated", .missingType "x", .invalidTag "0x1_0000_0000",
          .missingVariantValue "B"] := by
  have written : (significant (laidOut sampleOutline)).map Token.written
      = sampleOutline.flatMap Outline.Declaration.written := by decide
  have sound : ∀ t ∈ significant (laidOut sampleOutline), t.fault = none := by decide
  have whole := read_written_outline sampleOutline (laidOut sampleOutline) "sample" written sound
  refine ⟨written, sound, whole.1, whole.2.1.trans ?_⟩
  decide

end MessageSchema
