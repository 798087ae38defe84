import MessageSchema.Document.Walk
import MessageSchema.Imports

/-!
# Questions of an editor

A cursor stands on a byte of the source. The innermost part of the document
around it decides what it is about: the name of a declaration, or the
declaration that a type reference stands for.
-/

namespace MessageSchema

/-- A place in a document. -/
structure Location where
  document : String
  span : Span
deriving DecidableEq

/-- The classes in which an editor shows names. -/
inductive NameClass where
  | message
  | enum
  | field
  | variant
  | importing
  /-- The name of a builtin type. -/
  | type
deriving DecidableEq

/-- The name of a class in exchanged data. -/
def NameClass.name : NameClass → String
  | .message => "Message"
  | .enum => "Enum"
  | .field => "Field"
  | .variant => "Variant"
  | .importing => "Import"
  | .type => "Type"

/-- The class of a declared type's name. -/
def NameClass.ofDeclKind : DeclKind → NameClass
  | .message => .message
  | .enum => .enum

/-- A name to be shown in its class. -/
structure Highlight where
  span : Span
  nameClass : NameClass
deriving DecidableEq

namespace Document

/-- The innermost part around a byte: since parents come before their children,
the last part of the walk that has the byte. -/
def partAt? (d : Document) (offset : Nat) : Option Part :=
  (d.walk.filter (·.span.containsOffset offset)).getLast?

/-- The type that a cursor is about: the one whose name it stands on, or the one
that the reference under it stands for. -/
def targetAt? (d : Document) (offset : Nat) : Option DeclId :=
  (d.partAt? offset).bind fun part =>
    match part with
    | .typeRef t =>
      match t.resolution with
      | .declaration id => some id
      | .builtin | .unresolved => none
    | .message m => if m.nameSpan.containsOffset offset then d.findType? m.name else none
    | .enum e => if e.nameSpan.containsOffset offset then d.findType? e.name else none
    | _ => none

/-- The document that an identity belongs to: this one, or a supplied one. -/
def ownerOf? (d : Document) (imports : Imports) (id : DeclId) : Option Document :=
  if id.document = d.name then some d else imports.findDocument? id.document

/-- Where the type under a cursor is declared. -/
def declaredAt? (d : Document) (imports : Imports) (offset : Nat) : Option Location :=
  (d.targetAt? offset).bind fun id =>
    ((d.ownerOf? imports id).bind (·.declaration? id)).map fun declaration =>
      ⟨id.document, declaration.nameSpan⟩

/-- The definition of what is under a cursor. An import is defined where the
imported document begins. -/
def definitionAt? (d : Document) (imports : Imports) (offset : Nat) : Option Location :=
  match d.partAt? offset with
  | some (.importing i) =>
    (imports.get? i.name).map fun target => ⟨target.name, target.span.emptyAtStart⟩
  | _ => d.declaredAt? imports offset

/-- The places that refer to the type under a cursor, in the order of the source. -/
def referencesAt (d : Document) (offset : Nat) : List Span :=
  match d.targetAt? offset with
  | some id => (d.typeRefs.filter (·.resolution = .declaration id)).map (·.span)
  | none => []

/-- The name that is shown for a part. An unresolved reference is not shown. -/
def highlight? : Part → Option Highlight
  | .document _ => none
  | .importing i => some ⟨i.nameSpan, .importing⟩
  | .message m => some ⟨m.nameSpan, .message⟩
  | .field f => some ⟨f.nameSpan, .field⟩
  | .enum e => some ⟨e.nameSpan, .enum⟩
  | .variant v => some ⟨v.nameSpan, .variant⟩
  | .typeRef t =>
    match t.resolution with
    | .builtin => some ⟨t.span, .type⟩
    | .declaration id => some ⟨t.span, NameClass.ofDeclKind id.kind⟩
    | .unresolved => none

/-- The names to be shown. A missing name has nothing to show. -/
def highlights (d : Document) : List Highlight :=
  (d.walk.filterMap highlight?).filter (!·.span.isEmpty)

/-- The names of the types that a document declares, for completion. -/
def typeNames (d : Document) : List String :=
  ((d.declarations.filter Declaration.isType).map (·.name)).filter (· ≠ "")

end Document

end MessageSchema
