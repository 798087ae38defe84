import MessageSchema.Source.Span

/-!
# Documents

A document is what a source declares, in the order of the source: imports of
other documents, messages with their fields, and enums with their variants.
Names that are missing in the source are empty. A declared type is identified by
the document that declares it and the place among its declarations.
-/

namespace MessageSchema

/-- What is known about an import. -/
inductive ImportStatus where
  /-- Not looked at yet. -/
  | unchecked
  /-- No document was supplied under the name. -/
  | missing
  | found (used : Bool)
  /-- The import itself is malformed, and its name may be cut short. It is not checked
  against the supplied documents. Its name still counts where names are looked up and
  where repetitions are reported. -/
  | recovered
deriving DecidableEq

/-- The use of another document, under the name by which the host knows it. -/
structure Import where
  name : String
  nameSpan : Span
  status : ImportStatus
  span : Span
deriving DecidableEq

/-- What a field says about the presence of its value. -/
inductive Modifier where
  | required
  | optional
  | repeated
deriving DecidableEq

namespace Modifier

/-- Optional and repeated fields can be empty, so they never force a value to
contain itself. -/
def isIndirect : Modifier → Bool
  | .required => false
  | .optional | .repeated => true

/-- The name of a modifier in exchanged data. -/
def name : Modifier → String
  | .required => "Required"
  | .optional => "Optional"
  | .repeated => "Repeated"

end Modifier

/-- The declarations that are types. -/
inductive DeclKind where
  | message
  | enum
deriving DecidableEq

/-- The name of a kind in exchanged data. -/
def DeclKind.name : DeclKind → String
  | .message => "Message"
  | .enum => "Enum"

/-- The identity of a declared type: the name of the document and the index among
that document's declarations. -/
structure DeclId where
  document : String
  index : Nat
  kind : DeclKind
deriving DecidableEq

/-- What a type reference stands for. -/
inductive Resolution where
  | unresolved
  | builtin
  | declaration (id : DeclId)
deriving DecidableEq

/-- A type as it is written in a field, `Foo` or `common.Foo`. -/
structure TypeRef where
  raw : String
  resolution : Resolution
  span : Span
deriving DecidableEq

/-- A field of a message. -/
structure Field where
  name : String
  nameSpan : Span
  modifier : Option Modifier
  typeRef : Option TypeRef
  tag : Option UInt32
  tagSpan : Option Span
  span : Span
deriving DecidableEq

/-- A message with its fields. -/
structure Message where
  name : String
  nameSpan : Span
  fields : List Field
  span : Span
deriving DecidableEq

/-- A variant of an enum. -/
structure Variant where
  name : String
  nameSpan : Span
  value : Option Int64
  valueSpan : Option Span
  span : Span
deriving DecidableEq

/-- An enum with its variants. -/
structure Enum where
  name : String
  nameSpan : Span
  variants : List Variant
  span : Span
deriving DecidableEq

/-- A declaration of a document. -/
inductive Declaration where
  | importing (target : Import)
  | message (content : Message)
  | enum (content : Enum)
deriving DecidableEq

/-- What one source declares. -/
structure Document where
  name : String
  declarations : List Declaration
  span : Span
deriving DecidableEq

/-- A text in front of its last dot and behind it, if it has a dot. -/
def splitAtLastDot? : List Char → Option (List Char × List Char)
  | [] => none
  | c :: rest =>
    match splitAtLastDot? rest with
    | some (before, after) => some (c :: before, after)
    | none => if c = '.' then some ([], rest) else none

namespace TypeRef

/-- The import name in front of the last dot, if there is a dot. -/
def qualifier? (t : TypeRef) : Option String :=
  (splitAtLastDot? t.raw.toList).map fun parts => String.ofList parts.1

/-- The declaration name behind the last dot. -/
def baseName (t : TypeRef) : String :=
  match splitAtLastDot? t.raw.toList with
  | some (_, name) => String.ofList name
  | none => t.raw

/-- Whether the reference stands for anything, a builtin type included. -/
def isResolved (t : TypeRef) : Bool :=
  t.resolution ≠ .unresolved

end TypeRef

namespace Declaration

/-- The name under which something is declared or imported. -/
def name : Declaration → String
  | .importing i => i.name
  | .message m => m.name
  | .enum e => e.name

/-- The place of the name. -/
def nameSpan : Declaration → Span
  | .importing i => i.nameSpan
  | .message m => m.nameSpan
  | .enum e => e.nameSpan

/-- The whole declaration, from its keyword on. -/
def span : Declaration → Span
  | .importing i => i.span
  | .message m => m.span
  | .enum e => e.span

/-- The kind of type that is declared; an import declares none. -/
def kind? : Declaration → Option DeclKind
  | .importing _ => none
  | .message _ => some .message
  | .enum _ => some .enum

/-- The import that is declared, if it is one. -/
def import? : Declaration → Option Import
  | .importing i => some i
  | _ => none

/-- The message that is declared, if it is one. -/
def message? : Declaration → Option Message
  | .message m => some m
  | _ => none

/-- The enum that is declared, if it is one. -/
def enum? : Declaration → Option Enum
  | .enum e => some e
  | _ => none

/-- Whether a type is declared, and not an import. -/
def isType (d : Declaration) : Bool :=
  d.kind?.isSome

end Declaration

namespace Document

/-- A document that declares nothing. -/
def empty (name : String) : Document :=
  ⟨name, [], .origin⟩

/-- The imports, in the order of the source. -/
def imports (d : Document) : List Import :=
  d.declarations.filterMap Declaration.import?

/-- The names that a document imports, in the order of the source. -/
def importNames (d : Document) : List String :=
  d.imports.map (·.name)

/-- The messages, in the order of the source. -/
def messages (d : Document) : List Message :=
  d.declarations.filterMap Declaration.message?

/-- The enums, in the order of the source. -/
def enums (d : Document) : List Enum :=
  d.declarations.filterMap Declaration.enum?

/-- The messages and enums, each with the identity it has in the document. -/
def types (d : Document) : List (Declaration × DeclId) :=
  d.declarations.zipIdx.filterMap fun (declaration, index) =>
    declaration.kind?.map fun kind => (declaration, ⟨d.name, index, kind⟩)

/-- The first message or enum of a name. -/
def findType? (d : Document) (name : String) : Option DeclId :=
  (d.types.find? (·.1.name = name)).map (·.2)

/-- The declaration at the place of `id`, if `id` belongs to the document. -/
def declaration? (d : Document) (id : DeclId) : Option Declaration :=
  if id.document = d.name then d.declarations[id.index]? else none

/-- Every type reference in the order of the source. -/
def typeRefs (d : Document) : List TypeRef :=
  (d.messages.flatMap (·.fields)).filterMap (·.typeRef)

end Document

end MessageSchema
