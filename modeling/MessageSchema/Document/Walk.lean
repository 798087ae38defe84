import MessageSchema.Document.Basic

/-!
# Walking a document

A part is any place of a document that a cursor can be in: the document itself,
a declaration, a field or variant, a type reference. The walk lists all parts,
parents before their children and siblings in the order of the source.
-/

namespace MessageSchema

/-- A part of a document. -/
inductive Part where
  | document (content : Document)
  | importing (content : Import)
  | message (content : Message)
  | field (content : Field)
  | enum (content : Enum)
  | variant (content : Variant)
  | typeRef (content : TypeRef)
deriving DecidableEq

namespace Part

/-- The place of a part. -/
def span : Part → Span
  | .document d => d.span
  | .importing i => i.span
  | .message m => m.span
  | .field f => f.span
  | .enum e => e.span
  | .variant v => v.span
  | .typeRef t => t.span

/-- The name of the kind of a part in exchanged data. -/
def kindName : Part → String
  | .document _ => "Document"
  | .importing _ => "Import"
  | .message _ => "Message"
  | .field _ => "Field"
  | .enum _ => "Enum"
  | .variant _ => "Variant"
  | .typeRef _ => "TypeRef"

/-- A declaration as a part. -/
def ofDeclaration : Declaration → Part
  | .importing i => .importing i
  | .message m => .message m
  | .enum e => .enum e

/-- The parts right below a part. -/
def children : Part → List Part
  | .document d => d.declarations.map ofDeclaration
  | .message m => m.fields.map .field
  | .field f => (f.typeRef.map .typeRef).toList
  | .enum e => e.variants.map .variant
  | .importing _ | .variant _ | .typeRef _ => []

end Part

/-- A field and its type. -/
def Field.walk (f : Field) : List Part :=
  .field f :: (Part.field f).children

/-- A declaration and what is below it. -/
def Declaration.walk : Declaration → List Part
  | .importing i => [.importing i]
  | .message m => .message m :: m.fields.flatMap Field.walk
  | .enum e => .enum e :: (Part.enum e).children

/-- A document and all that is below it. -/
def Document.walk (d : Document) : List Part :=
  .document d :: d.declarations.flatMap Declaration.walk

end MessageSchema
