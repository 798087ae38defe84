import Std.Data.ExtTreeMap
import MessageSchema.Document.Basic

/-!
# Symbol tables

A symbol table holds the types that one document declares, by name and in
ascending order of the names. Where a name is declared twice the first
declaration counts, and a missing name is not an entry.
-/

namespace MessageSchema

/-- The types of a document by their names. -/
structure SymbolTable where
  types : Std.ExtTreeMap String DeclId compare

namespace SymbolTable

/-- A table without entries. -/
def empty : SymbolTable :=
  ⟨∅⟩

/-- The types that a document declares. -/
def ofDocument (d : Document) : SymbolTable :=
  ⟨d.types.foldl (fun table (declaration, id) =>
    if declaration.name = "" then table else table.insertIfNew declaration.name id) ∅⟩

/-- The type of a name. -/
def get? (table : SymbolTable) (name : String) : Option DeclId :=
  table.types[name]?

/-- The entries in ascending order of the names. -/
def entries (table : SymbolTable) : List (String × DeclId) :=
  table.types.toList

/-- The number of entries. -/
def size (table : SymbolTable) : Nat :=
  table.types.size

/-- Whether the document declares no type that has a name. -/
def isEmpty (table : SymbolTable) : Bool :=
  table.types.isEmpty

end SymbolTable

end MessageSchema
