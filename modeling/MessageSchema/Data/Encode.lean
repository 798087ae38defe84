import MessageSchema.Analysis
import MessageSchema.Data.Basic

/-!
# Trees, documents and findings as data

The shapes in which hosts receive the library's values. The order of the fields
is part of each shape.
-/

namespace MessageSchema

open Data

/-- A span by its ends, with the line and column of its start. -/
def Span.toData (s : Span) : Data :=
  .record [("start", nat s.start), ("end", nat s.stop), ("line", nat s.line),
    ("column", nat s.column)]

/-- A finding with its texts, which hosts show as they are. -/
def Diagnostic.toData (d : Diagnostic) : Data :=
  .record [("severity", .text d.severity.name), ("code", .text d.code),
    ("message", .text d.message), ("span", d.span.toData)]

/-- A token inside a tree. -/
def Token.toData (t : Token) : Data :=
  .record [("ttype", .text t.kind.name), ("lexeme", .text t.lexeme), ("span", t.span.toData)]

mutual

/-- A node with everything below it. -/
def Node.toData : Node → Data
  | ⟨kind, children, span⟩ =>
    .record [("kind", .text kind.name), ("children", .list (Element.listToData children)),
      ("span", span.toData)]

/-- A child of a node, marked as a node or as a token. -/
def Element.toData : Element → Data
  | .node n => .tagged "Node" n.toData
  | .token t => .tagged "Token" t.toData

/-- The children of a node, in order. -/
def Element.listToData : List Element → List Data
  | [] => []
  | e :: rest => e.toData :: Element.listToData rest

end

/-- A status; only an import that was found has more to tell. -/
def ImportStatus.toData : ImportStatus → Data
  | .unchecked => .text "Unchecked"
  | .missing => .text "Missing"
  | .found used => .tagged "Found" (.record [("used", .bool used)])
  | .recovered => .text "Recovered"

/-- An identity by its three parts. -/
def DeclId.toData (id : DeclId) : Data :=
  .record [("document", .text id.document), ("index", nat id.index),
    ("kind", .text id.kind.name)]

/-- What a reference stands for; only a declaration has more to tell. -/
def Resolution.toData : Resolution → Data
  | .unresolved => .text "Unresolved"
  | .builtin => .text "Builtin"
  | .declaration id => .tagged "Declaration" id.toData

/-- A reference with its text and what it stands for. -/
def TypeRef.toData (t : TypeRef) : Data :=
  .record [("raw", .text t.raw), ("resolution", t.resolution.toData), ("span", t.span.toData)]

/-- A field. What it does not have is null. -/
def Field.toData (f : Field) : Data :=
  .record [("name", .text f.name), ("name_span", f.nameSpan.toData),
    ("modifier", optional (fun m => .text m.name) f.modifier),
    ("type_ref", optional TypeRef.toData f.typeRef), ("tag", optional (fun tag => nat tag.toNat) f.tag),
    ("tag_span", optional Span.toData f.tagSpan), ("span", f.span.toData)]

/-- A variant. What it does not have is null. -/
def Variant.toData (v : Variant) : Data :=
  .record [("name", .text v.name), ("name_span", v.nameSpan.toData),
    ("value", optional (fun value => .int value.toInt) v.value),
    ("value_span", optional Span.toData v.valueSpan),
    ("span", v.span.toData)]

/-- A declaration with its kind as the first field. -/
def Declaration.toData : Declaration → Data
  | .importing i =>
    .record [("kind", .text "Import"), ("name", .text i.name), ("name_span", i.nameSpan.toData),
      ("status", i.status.toData), ("span", i.span.toData)]
  | .message m =>
    .record [("kind", .text "Message"), ("name", .text m.name), ("name_span", m.nameSpan.toData),
      ("fields", listOf Field.toData m.fields), ("span", m.span.toData)]
  | .enum e =>
    .record [("kind", .text "Enum"), ("name", .text e.name), ("name_span", e.nameSpan.toData),
      ("variants", listOf Variant.toData e.variants), ("span", e.span.toData)]

/-- A document with its declarations, in order. -/
def Document.toData (d : Document) : Data :=
  .record [("name", .text d.name), ("declarations", listOf Declaration.toData d.declarations),
    ("span", d.span.toData)]

/-- A symbol table as a record whose fields are the names, in ascending order. -/
def SymbolTable.toData (table : SymbolTable) : Data :=
  .record [("types", .record (table.entries.map fun (name, id) => (name, id.toData)))]

/-- A resolved document together with its symbols. -/
def Resolved.toData (resolved : Resolved) : Data :=
  .record [("document", resolved.document.toData), ("symbols", resolved.symbols.toData)]

/-- The document and what was found; the symbols can be read off the document. -/
def Analysis.toData (analysis : Analysis) : Data :=
  .record [("document", analysis.document.toData),
    ("diagnostics", listOf Diagnostic.toData analysis.diagnostics)]

end MessageSchema
