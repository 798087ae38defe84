import MessageSchema.Config.Basic
import MessageSchema.Data.Json
import MessageSchema.Data.JsonReader

/-!
# Configurations as JSON

A configuration is written as an object with its two lists of names. It is read
from such an object, in which a list may be missing and unknown keys are passed
over, or from a list of the two lists. A list that is missing is the standard
one.
-/

namespace MessageSchema

namespace Config

/-- A set of names as data, in ascending order. -/
def namesData (names : NameSet) : Data :=
  Data.listOf Data.text names.toList

/-- A configuration as data. -/
def toData (config : Config) : Data :=
  .record [("builtins", namesData config.builtins), ("reserved", namesData config.reserved)]

/-- A configuration as JSON text. -/
def toJson (config : Config) : String :=
  config.toData.toJson

end Config

namespace ConfigReader

open JsonReader

/-- A name of a list, added to the names already read. -/
def nameItem (names : NameSet) : List Char → Outcome NameSet
  | '"' :: inside =>
    match string true inside with
    | .error fault => .error fault
    | .ok (name, rest) => .ok (names.insert (String.ofList name), rest)
  | other => .error (unsuitable other)

/-- A name takes at least its opening quote. -/
theorem nameItem_length {before after : NameSet} {text rest : List Char}
    (read : nameItem before text = .ok (after, rest)) : rest.length < text.length := by
  unfold nameItem at read
  grind [→ string_length]

/-- The names of a list. -/
def nameReader : ItemReader NameSet :=
  ⟨nameItem, nameItem_length⟩

/-- A list of names. -/
def names (text : List Char) : Outcome NameSet :=
  match skipBlanks text with
  | [] => .error .ended
  | '[' :: rest => nameReader.items ']' true ∅ rest
  | other => .error (unsuitable other)

/-- The mark that closes a list, behind the last item that it may have. -/
def closeList (text : List Char) : Except Fault (List Char) :=
  match skipBlanks text with
  | [] => .error .ended
  | ']' :: rest => .ok rest
  | _ => .error .malformed

/-- A configuration behind the opening mark of a list of its two lists. -/
def positional (text : List Char) : Except Fault (Config × List Char) := do
  match ← step ']' true text with
  | .closed rest => .ok (.standard, rest)
  | .item first =>
    let (builtins, afterFirst) ← names first
    match ← step ']' false afterFirst with
    | .closed rest => .ok (⟨builtins, Config.standard.reserved⟩, rest)
    | .item second =>
      let (reserved, afterSecond) ← names second
      let rest ← closeList afterSecond
      .ok (⟨builtins, reserved⟩, rest)

/-- The lists of a configuration. -/
inductive ListName where
  | builtins
  | reserved
deriving DecidableEq

/-- The key of a list in an object. -/
def ListName.key : ListName → String
  | .builtins => "builtins"
  | .reserved => "reserved"

/-- The list of a key. -/
def ListName.ofKey? (key : List Char) : Option ListName :=
  [builtins, reserved].find? fun list => list.key.toList = key

/-- The lists of an object that were read so far. -/
structure Fields where
  builtins : Option NameSet
  reserved : Option NameSet

namespace Fields

/-- No lists. -/
def none : Fields :=
  ⟨.none, .none⟩

/-- A list, if it was read. -/
def get? (fields : Fields) : ListName → Option NameSet
  | .builtins => fields.builtins
  | .reserved => fields.reserved

/-- The lists with one more read. -/
def set (fields : Fields) (names : NameSet) : ListName → Fields
  | .builtins => { fields with builtins := names }
  | .reserved => { fields with reserved := names }

/-- The configuration of the lists; a missing one is the standard one. -/
def config (fields : Fields) : Config :=
  ⟨fields.builtins.getD Config.standard.builtins, fields.reserved.getD Config.standard.reserved⟩

end Fields

/-- A list of names behind a colon. -/
def namesAfterColon (text : List Char) : Outcome NameSet :=
  match colon text with
  | .error fault => .error fault
  | .ok value => names value

/-- A list behind its key. No list may be given twice. -/
def listField (list : ListName) (fields : Fields) (text : List Char) : Outcome Fields :=
  if (fields.get? list).isSome then .error .unsuitable
  else
    match namesAfterColon text with
    | .error fault => .error fault
    | .ok (found, rest) => .ok (fields.set found list, rest)

/-- A value behind a key that is not known. -/
def unknownField (fields : Fields) (text : List Char) : Outcome Fields :=
  match colon text with
  | .error fault => .error fault
  | .ok value =>
    match skipValue [] value with
    | .error fault => .error fault
    | .ok rest => .ok (fields, rest)

/-- A field of an object behind its key: a list that was not there before, or a
value that is passed over. -/
def fieldValue (fields : Fields) (name text : List Char) : Outcome Fields :=
  match ListName.ofKey? name with
  | some list => listField list fields text
  | none => unknownField fields text

/-- A field of an object from its key on. -/
def fieldItem (fields : Fields) (text : List Char) : Outcome Fields :=
  match key true text with
  | .error fault => .error fault
  | .ok (name, rest) => fieldValue fields name rest

/-- Reading a list of names takes at least its opening mark. -/
theorem names_length {found : NameSet} {text rest : List Char}
    (read : names text = .ok (found, rest)) : rest.length < text.length := by
  have := skipBlanks_length text
  unfold names at read
  grind [→ ItemReader.items_length]

/-- The colon is taken in any case. -/
theorem namesAfterColon_length {found : NameSet} {text rest : List Char}
    (read : namesAfterColon text = .ok (found, rest)) : rest.length < text.length := by
  unfold namesAfterColon at read
  grind [→ colon_length, → names_length]

/-- A known list is read behind its colon, if it is read at all. -/
theorem listField_length {list : ListName} {before after : Fields} {text rest : List Char}
    (read : listField list before text = .ok (after, rest)) : rest.length < text.length := by
  unfold listField at read
  grind [→ namesAfterColon_length]

/-- What is passed over is the colon and the value behind it. -/
theorem unknownField_length {before after : Fields} {text rest : List Char}
    (read : unknownField before text = .ok (after, rest)) : rest.length < text.length := by
  unfold unknownField at read
  grind [→ colon_length, → skipValue_length]

/-- Whether the key is known or not, something is taken behind it. -/
theorem fieldValue_length {before after : Fields} {name text rest : List Char}
    (read : fieldValue before name text = .ok (after, rest)) : rest.length < text.length := by
  unfold fieldValue at read
  split at read
  · exact listField_length read
  · exact unknownField_length read

/-- A field takes its key and its value. -/
theorem fieldItem_length {before after : Fields} {text rest : List Char}
    (read : fieldItem before text = .ok (after, rest)) : rest.length < text.length := by
  unfold fieldItem at read
  grind [→ key_length, → fieldValue_length]

/-- The fields of an object. -/
def fieldReader : ItemReader Fields :=
  ⟨fieldItem, fieldItem_length⟩

/-- The configuration ahead and the text behind it. -/
def value (text : List Char) : Outcome Config :=
  match skipBlanks text with
  | [] => .error .ended
  | '[' :: rest => positional rest
  | '\x7b' :: rest =>
    (fieldReader.items '\x7d' true .none rest).map fun (fields, after) => (fields.config, after)
  | other => .error (unsuitable other)

end ConfigReader

/-- The configuration that a JSON text stands for. Nothing but blanks may follow it. -/
def Config.ofJson (json : String) : Except JsonReader.Fault Config :=
  match ConfigReader.value json.toList with
  | .error fault => .error fault
  | .ok (config, rest) =>
    if (JsonReader.skipBlanks rest).isEmpty then .ok config else .error .malformed

end MessageSchema
