import Std.Data.ExtTreeSet

/-!
# Language configurations

A configuration says which type names need no declaration and which names no
declaration may have. Both are sets of names in ascending order, so that two
configurations with the same names are equal.
-/

namespace MessageSchema

/-- A finite set of names, in ascending order. -/
abbrev NameSet := Std.ExtTreeSet String compare

/-- The settings of the language. -/
structure Config where
  /-- Type names that resolve without a declaration. -/
  builtins : NameSet
  /-- Names that a message, enum, field or variant may not have. -/
  reserved : NameSet
deriving DecidableEq

namespace Config

/-- The builtin types of the plain language. -/
def defaultBuiltins : List String :=
  ["Int", "UInt", "Float", "Bool", "String", "Byte", "Bit", "bit", "byte", "int", "uint", "vint",
   "vuint", "float", "ufloat", "string", "vstring", "time", "date", "dateTime"]

/-- The names that the plain language reserves. -/
def defaultReserved : List String :=
  ["abstract", "array", "assert", "checksum", "const", "discriminator", "implicit", "manual",
   "manualArray", "padding", "peek", "reserved", "simple", "state", "typeSwitch", "unknown",
   "validation", "virtual"]

/-- The configuration of the plain language. -/
def standard : Config :=
  ⟨.ofList defaultBuiltins, .ofList defaultReserved⟩

/-- The configuration without any names. -/
def empty : Config :=
  ⟨∅, ∅⟩

/-- The configuration with one more builtin type. -/
def withBuiltin (config : Config) (name : String) : Config :=
  { config with builtins := config.builtins.insert name }

/-- The configuration with one more reserved name. -/
def withReserved (config : Config) (name : String) : Config :=
  { config with reserved := config.reserved.insert name }

/-- Whether a type of this name needs no declaration. -/
def isBuiltin (config : Config) (name : String) : Bool :=
  config.builtins.contains name

/-- Whether a declaration may not have this name. -/
def isReserved (config : Config) (name : String) : Bool :=
  config.reserved.contains name

end Config

end MessageSchema
