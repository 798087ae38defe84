import Std.Data.ExtTreeMap
import MessageSchema.Document.Basic
import MessageSchema.Graph

/-!
# Supplied documents

A host analyses documents in any order and supplies them under the names by
which other documents import them. A document also has a name of its own, which
may differ from the key under which it is supplied.
-/

namespace MessageSchema

/-- The documents that can be imported, by the name used in `import`. -/
structure Imports where
  documents : Std.ExtTreeMap String Document compare

namespace Imports

/-- No documents. -/
def empty : Imports :=
  ⟨∅⟩

/-- Supplies a document, in place of an earlier one under the same key. -/
def insert (imports : Imports) (key : String) (document : Document) : Imports :=
  ⟨imports.documents.insert key document⟩

/-- The document supplied under a key. -/
def get? (imports : Imports) (key : String) : Option Document :=
  imports.documents[key]?

/-- The keys with their documents, the keys in ascending order. -/
def entries (imports : Imports) : List (String × Document) :=
  imports.documents.toList

/-- The document whose own name is `name`: the one supplied under that key, or
else the one with the smallest key. -/
def findDocument? (imports : Imports) (name : String) : Option Document :=
  ((imports.get? name).filter (·.name = name)).or
    ((imports.entries.map (·.2)).find? (·.name = name))

/-- The number of keys. -/
def size (imports : Imports) : Nat :=
  imports.documents.size

/-- Whether no document is supplied. -/
def isEmpty (imports : Imports) : Bool :=
  imports.documents.isEmpty

/-- Which keys lead on to which: a document leads to what it imports. -/
def graph (imports : Imports) : Graph String :=
  ⟨imports.entries.map fun (key, document) => (key, document.importNames)⟩

/-- The graph in which documents named `self` lead nowhere. -/
def graphOutside (imports : Imports) (self : String) : Graph String :=
  ⟨imports.entries.map fun (key, document) =>
    (key, if document.name = self then [] else document.importNames)⟩

/-- What the document under a key declares by a name, unless it is named `self`. -/
def findTypeOutside? (imports : Imports) (self key name : String) : Option DeclId :=
  (imports.get? key).bind fun document =>
    if document.name = self then none else document.findType? name

/-- The first type of a name that is found through the import `key`: the imports
of imports are searched in the order of their declarations, each key once, and
the document named `self` is not entered. -/
def findThrough? (imports : Imports) (self key name : String) : Option DeclId :=
  ((imports.graphOutside self).reachedFrom [self] key).findSome? fun k =>
    imports.findTypeOutside? self k name

/-- Whether a key stands for the document named `self`. -/
def isSelf (imports : Imports) (self key : String) : Bool :=
  key = self || (imports.get? key).any (·.name = self)

/-- Whether an import of `key` leads back to the document named `self`. -/
def leadsBack (imports : Imports) (self key : String) : Bool :=
  (imports.graph.reachedFrom [] key).any (imports.isSelf self)

end Imports

end MessageSchema
