import MessageSchema.Config.Basic
import MessageSchema.Check.Repeats
import MessageSchema.Diagnostic
import MessageSchema.Document.Basic

/-!
# Names that cannot be used

A type may be named neither like a builtin type nor by a reserved word; a field
or variant may not be named by a reserved word. An import must name a document
that was supplied, and should be used.
-/

namespace MessageSchema.Check

/-- The names within a type that must not be reserved, with their places. -/
def memberNames : Declaration → List (String × Span)
  | .importing _ => []
  | .message m => m.fields.map fun f => (f.name, f.nameSpan)
  | .enum e => e.variants.map fun v => (v.name, v.nameSpan)

/-- The names of a declaration that cannot be used, with their places. -/
def unusableNames (config : Config) (d : Declaration) : List (String × Span) :=
  (if d.isType && (config.isBuiltin d.name || config.isReserved d.name)
    then [(d.name, d.nameSpan)] else [])
    ++ (memberNames d).filter (config.isReserved ·.1)

/-- Names that cannot be used, in the order of the source. -/
def reservedIdentifiers (config : Config) (d : Document) : List Diagnostic :=
  (d.declarations.flatMap (unusableNames config)).map fun (name, span) =>
    ⟨.reservedIdentifier name, span⟩

/-- The imports that are judged: well formed ones with a name. -/
def judgedImports (d : Document) : List Import :=
  d.imports.filter fun i => i.name ≠ "" && i.status ≠ .recovered

/-- The members of a list that are the first of their name. -/
def firstImports : List Import → List Import
  | [] => []
  | i :: rest => i :: (firstImports rest).filter (·.name ≠ i.name)

/-- The finding for an import. -/
def importFinding? (i : Import) : Option Diagnostic :=
  match i.status with
  | .missing => some ⟨.unknownImport i.name, i.nameSpan⟩
  | .found false => some ⟨.unusedImport i.name, i.nameSpan⟩
  | .found true | .unchecked | .recovered => none

/-- Imports that are unknown or unused, each name once. -/
def imports (d : Document) : List Diagnostic :=
  (firstImports (judgedImports d)).filterMap importFinding?

end MessageSchema.Check
