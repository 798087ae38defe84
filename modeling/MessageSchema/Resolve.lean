import MessageSchema.Config.Basic
import MessageSchema.Diagnostic
import MessageSchema.Imports
import MessageSchema.Symbols

/-!
# Resolving type references

A reference with a dot names an import and a type that the imported document
itself declares. A reference without a dot names a type of the document, or a
builtin type, or a type found through one of the imports, in this order. A
document is resolved from its declarations alone: what earlier resolutions left
in it is replaced.
-/

namespace MessageSchema

/-- The values of a list without repetitions, each at its first place. -/
def distinct {α : Type} [DecidableEq α] (values : List α) : List α :=
  values.foldl (fun kept value => if value ∈ kept then kept else kept ++ [value]) []

/-- What is visible to the references of a document. -/
structure Scope where
  /-- The name of the document itself. -/
  self : String
  symbols : SymbolTable
  /-- The names that the document imports, without repetitions. -/
  importNames : List String
  imports : Imports
  config : Config

/-- What a reference stands for, and the import through which it was found. -/
structure Lookup where
  resolution : Resolution
  via : Option String
deriving DecidableEq

namespace Lookup

/-- The outcome for a reference that stands for nothing. -/
def unresolved : Lookup :=
  ⟨.unresolved, none⟩

end Lookup

namespace Scope

/-- The scope of a document. Missing import names are not searched. -/
def ofDocument (d : Document) (imports : Imports) (config : Config) : Scope :=
  ⟨d.name, SymbolTable.ofDocument d, distinct (d.importNames.filter (· ≠ "")), imports, config⟩

/-- The type of a name in an import of a name. -/
def lookupQualified (scope : Scope) (qualifier name : String) : Lookup :=
  if qualifier ∈ scope.importNames then
    match (scope.imports.get? qualifier).bind (·.findType? name) with
    | some id => ⟨.declaration id, some qualifier⟩
    | none => .unresolved
  else .unresolved

/-- The type of a name through the first import that leads to one. -/
def lookupImported (scope : Scope) (name : String) : Lookup :=
  let found := scope.importNames.findSome? fun key =>
    (scope.imports.findThrough? scope.self key name).map fun id => (key, id)
  match found with
  | some (key, id) => ⟨.declaration id, some key⟩
  | none => .unresolved

/-- The type of a name without a dot. -/
def lookupPlain (scope : Scope) (name : String) : Lookup :=
  match scope.symbols.get? name with
  | some id => ⟨.declaration id, none⟩
  | none =>
    if scope.config.isBuiltin name then ⟨.builtin, none⟩
    else scope.lookupImported name

/-- What a reference stands for. -/
def lookup (scope : Scope) (t : TypeRef) : Lookup :=
  match t.qualifier? with
  | some qualifier => scope.lookupQualified qualifier t.baseName
  | none => scope.lookupPlain t.baseName

/-- A reference with what it stands for. -/
def resolveRef (scope : Scope) (t : TypeRef) : TypeRef :=
  { t with resolution := (scope.lookup t).resolution }

/-- A field with its type resolved, if it has one. -/
def resolveField (scope : Scope) (f : Field) : Field :=
  { f with typeRef := f.typeRef.map scope.resolveRef }

/-- The imports through which references of a document were found, without
repetitions. -/
def usedImports (scope : Scope) (d : Document) : List String :=
  distinct (d.typeRefs.filterMap fun t => (scope.lookup t).via)

/-- What is known of an import, given the imports that are used. A malformed one
stays as it is. -/
def importStatus (scope : Scope) (used : List String) (i : Import) : ImportStatus :=
  if i.status = .recovered then .recovered
  else if (scope.imports.get? i.name).isSome then .found (i.name ∈ used)
  else .missing

/-- A declaration with its references resolved, or its import looked up. -/
def resolveDeclaration (scope : Scope) (used : List String) : Declaration → Declaration
  | .importing i => .importing { i with status := scope.importStatus used i }
  | .message m => .message { m with fields := m.fields.map scope.resolveField }
  | .enum e => .enum e

/-- Whether an import leads back to the document. -/
def isCyclic (scope : Scope) (i : Import) : Bool :=
  i.status ≠ .recovered && i.name ≠ "" && scope.imports.leadsBack scope.self i.name

/-- The imports of a document that lead back to it, in the order of the source. -/
def cyclicImports (scope : Scope) (d : Document) : List Import :=
  d.imports.filter scope.isCyclic

/-- The references of a document that stand for nothing, in the order of the source. -/
def unresolvedRefs (scope : Scope) (d : Document) : List TypeRef :=
  d.typeRefs.filter fun t => (scope.lookup t).resolution = .unresolved

/-- The findings, cycles first, in the order in which they are made. -/
def findings (scope : Scope) (d : Document) : List Diagnostic :=
  (scope.cyclicImports d).map (fun i => ⟨.importCycle i.name, i.nameSpan⟩)
    ++ (scope.unresolvedRefs d).map (fun t => ⟨.unresolvedType t.raw, t.span⟩)

/-- A document with all references resolved and all imports looked up. -/
def resolveDocument (scope : Scope) (d : Document) : Document :=
  { d with declarations := d.declarations.map (scope.resolveDeclaration (scope.usedImports d)) }

end Scope

/-- A resolved document with the types that it declares, and the findings in the
order in which they were made. -/
structure Resolved where
  document : Document
  symbols : SymbolTable
  findings : List Diagnostic

/-- The findings in the order of their places. -/
def Resolved.diagnostics (resolved : Resolved) : List Diagnostic :=
  Diagnostic.sorted resolved.findings

/-- Resolves a document against the supplied documents. -/
def resolve (d : Document) (imports : Imports) (config : Config) : Resolved :=
  let scope := Scope.ofDocument d imports config
  ⟨scope.resolveDocument d, scope.symbols, scope.findings d⟩

/-- A document as it is, with the types that it declares. -/
def Resolved.unchecked (d : Document) : Resolved :=
  ⟨d, SymbolTable.ofDocument d, []⟩

end MessageSchema
