import MessageSchema.Document.Basic
import MessageSchema.Literal.Quoted
import MessageSchema.Text.Blank
import MessageSchema.Tree.Basic

/-!
# Documents of concrete trees

Each node of a declaration is read by the tokens and nodes right below it;
keywords and marks are dropped, spans are kept. What the grammar cannot rule out
is found here: a field without a type, a tag or value that is no suitable
integer, a second modifier, an import of nothing. A node that was skipped into
reports nothing more.

What a node denotes and what is wrong with it are separate functions of the node.
-/

namespace MessageSchema

/-- A name with its place. -/
structure NamePart where
  text : String
  span : Span
deriving DecidableEq

namespace Node

/-- The place of what should follow the first token of a kind: where the next
child starts, or right behind the token. -/
def placeAfter (n : Node) (kind : TokenKind) : Span :=
  match n.children.dropWhile (!·.isToken kind) with
  | _ :: next :: _ => next.span.emptyAtStart
  | [.token keyword] => keyword.pointAfter
  | _ => n.span.emptyAtStart

/-- The identifier right behind a keyword, or an empty name where it should stand. -/
def nameAfter (n : Node) (word : Keyword) : NamePart :=
  match n.tokenAfter? (.keyword word) with
  | some t =>
    if t.kind = .identifier then ⟨t.lexeme, t.span⟩ else ⟨"", n.placeAfter (.keyword word)⟩
  | none => ⟨"", n.placeAfter (.keyword word)⟩

/-- Findings of a node, which count only if nothing was skipped in it. -/
def findings (n : Node) (found : List Diagnostic) : List Diagnostic :=
  if n.hasError then [] else found

/-! ## Imports -/

/-- The tokens that can name a document. -/
def isTargetKind (kind : TokenKind) : Bool :=
  kind == .string || kind == .identifier || kind == .punct .dot

/-- The tokens that name the document to import, without dots at the end. -/
def importTarget (n : Node) : List Token :=
  ((n.tokens.filter (isTargetKind ·.kind)).reverse.dropWhile (·.kind = .punct .dot)).reverse

/-- The name of the document to import: a quoted one is decoded, a dotted one is
joined. -/
def importName (n : Node) : NamePart :=
  match n.importTarget with
  | [] => ⟨"", n.placeAfter (.keyword .importing)⟩
  | first :: rest =>
    if first.kind = .string then
      ⟨String.ofList (Literal.Quoted.decode first.lexeme.toList), first.span⟩
    else
      ⟨String.join ((first :: rest).map (·.lexeme)),
        (rest.map (·.span)).foldl Span.union first.span⟩

/-- An import with anything wrong in it cannot be trusted. -/
def importStatus (n : Node) : ImportStatus :=
  if n.hasError || n.importTarget.any (·.fault.isSome) then .recovered else .unchecked

/-- The import that a node denotes. -/
def toImport (n : Node) : Import :=
  ⟨n.importName.text, n.importName.span, n.importStatus, n.span⟩

/-- A quoted name of blanks names nothing. -/
def importFindings (n : Node) : List Diagnostic :=
  n.findings <|
    match n.importTarget with
    | [] => []
    | first :: _ =>
      if first.kind = .string && Text.isBlankText n.importName.text && first.fault.isNone then
        [⟨.emptyImportName, first.span⟩]
      else []

/-! ## Fields and messages -/

/-- The modifier that a kind of token is. -/
def modifierOf : TokenKind → Modifier
  | .keyword .required => .required
  | .keyword .optional => .optional
  | _ => .repeated

/-- The modifiers of a field. -/
def modifiers (n : Node) : List Token :=
  n.tokens.filter (·.kind.isModifier)

/-- The type of a field, unless the type itself is malformed. -/
def fieldType (n : Node) : Option TypeRef :=
  match n.firstNode? .typeRef with
  | some t =>
    if t.hasError then none
    else some ⟨String.join (t.tokens.map (·.lexeme)), .unresolved, t.span⟩
  | none => none

/-- The token behind the equals sign. -/
def numberToken? (n : Node) : Option Token :=
  n.tokenAfter? (.punct .equals)

/-- The tag that a text denotes: an integer of 32 bits without sign. -/
def tagOf? (lexeme : String) : Option UInt32 :=
  (Literal.Number.integerWithin? 0 (Nat.pow 2 32) lexeme.toList).map fun v => .ofNat v.toNat

/-- The value that a text denotes: an integer of 64 bits with sign. -/
def valueOf? (lexeme : String) : Option Int64 :=
  (Literal.Number.integerWithin? (-(Nat.pow 2 63)) (Nat.pow 2 63) lexeme.toList).map .ofInt

/-- The field that a node denotes. Its first modifier counts. -/
def toField (n : Node) : Field where
  name := (n.nameAfter .field).text
  nameSpan := (n.nameAfter .field).span
  modifier := n.modifiers.head?.map (modifierOf ·.kind)
  typeRef := n.fieldType
  tag := n.numberToken?.bind (tagOf? ·.lexeme)
  tagSpan := n.numberToken?.map (·.span)
  span := n.span

/-- A number that gives no value, unless the token already carries a fault. -/
def numberFindings (n : Node) (usable : String → Bool) (problem : String → Problem) :
    List Diagnostic :=
  match n.numberToken? with
  | some t =>
    if !usable t.lexeme && t.fault.isNone then [⟨problem t.lexeme, t.span⟩] else []
  | none => []

/-- What is wrong with a field: modifiers behind the first, no type, no usable tag. -/
def fieldFindings (n : Node) : List Diagnostic :=
  let name := n.nameAfter .field
  n.findings <|
    (n.modifiers.drop 1).map (fun t => ⟨.conflictingModifiers name.text t.lexeme, t.span⟩)
      ++ (if (n.firstNode? .typeRef).isNone then [⟨.missingType name.text, name.span⟩] else [])
      ++ n.numberFindings (fun lexeme => (tagOf? lexeme).isSome) .invalidTag

/-- The message that a node denotes. -/
def toMessage (n : Node) : Message :=
  ⟨(n.nameAfter .message).text, (n.nameAfter .message).span,
    (n.nodesOf .field).map toField, n.span⟩

/-! ## Variants and enums -/

/-- The name of a variant. -/
def variantName (n : Node) : NamePart :=
  match n.firstToken? .identifier with
  | some t => ⟨t.lexeme, t.span⟩
  | none => ⟨"", n.span.emptyAtStart⟩

/-- The variant that a node denotes. -/
def toVariant (n : Node) : Variant where
  name := n.variantName.text
  nameSpan := n.variantName.span
  value := n.numberToken?.bind (valueOf? ·.lexeme)
  valueSpan := n.numberToken?.map (·.span)
  span := n.span

/-- What is wrong with a variant: no value, or no usable one. -/
def variantFindings (n : Node) : List Diagnostic :=
  n.findings <|
    if n.numberToken?.isNone then [⟨.missingVariantValue n.variantName.text, n.variantName.span⟩]
    else n.numberFindings (fun lexeme => (valueOf? lexeme).isSome) .invalidEnumValue

/-- The enum that a node denotes. -/
def toEnum (n : Node) : Enum :=
  ⟨(n.nameAfter .enum).text, (n.nameAfter .enum).span,
    (n.nodesOf .variant).map toVariant, n.span⟩

/-! ## Declarations and documents -/

/-- The declaration that a node denotes, if it is one. -/
def toDeclaration? (n : Node) : Option Declaration :=
  match n.kind with
  | .importing => some (.importing n.toImport)
  | .message => some (.message n.toMessage)
  | .enum => some (.enum n.toEnum)
  | _ => none

/-- What is wrong in a declaration, in the order of the source. -/
def declarationFindings (n : Node) : List Diagnostic :=
  match n.kind with
  | .importing => n.importFindings
  | .message => (n.nodesOf .field).flatMap fieldFindings
  | .enum => (n.nodesOf .variant).flatMap variantFindings
  | _ => []

/-- The document that a tree denotes, under the name given to it. -/
def toDocument (n : Node) (name : String) : Document :=
  ⟨name, n.nodes.filterMap toDeclaration?, n.span⟩

/-- What is wrong with the declarations of a tree, in the order of the source. -/
def documentFindings (n : Node) : List Diagnostic :=
  n.nodes.flatMap declarationFindings

/-- What is wrong with the declarations of a tree, in the order of the places. -/
def documentDiagnostics (n : Node) : List Diagnostic :=
  Diagnostic.sorted n.documentFindings

end Node

end MessageSchema
