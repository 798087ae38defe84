/-!
# Exchanged data

What a host receives is plain data: the usual scalars, lists, records with
their fields in a fixed order, and tagged values for alternatives that carry
something. Every text format of the library writes this one type.
-/

namespace MessageSchema

/-- A piece of data. -/
inductive Data where
  | null
  | bool (value : Bool)
  | int (value : Int)
  | text (value : String)
  | list (items : List Data)
  | record (fields : List (String × Data))
  | tagged (tag : String) (content : Data)

namespace Data

/-- A natural number as data. -/
def nat (n : Nat) : Data :=
  .int n

/-- A value that may be missing; `null` stands for none. -/
def optional {α : Type} (encode : α → Data) : Option α → Data
  | none => .null
  | some value => encode value

/-- A list of values as data. -/
def listOf {α : Type} (encode : α → Data) (values : List α) : Data :=
  .list (values.map encode)

end Data

end MessageSchema
