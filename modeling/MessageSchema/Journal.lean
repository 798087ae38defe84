import MessageSchema.Analysis

/-!
# The journal of an analysis

A journal tells what an analysis did, stage by stage, in lines for people. It is
read off the results of the stages: the skipped stretches off the tree, the
cycles and unresolved references off the findings, the counts off the lists.
-/

namespace MessageSchema

/-- How much detail a line goes into. -/
inductive LogLevel where
  | debug
  | trace
deriving DecidableEq

/-- The name of a level. -/
def LogLevel.name : LogLevel → String
  | .debug => "DEBUG"
  | .trace => "TRACE"

/-- A line of the journal. -/
structure LogLine where
  level : LogLevel
  text : String
deriving DecidableEq

namespace Journal

/-- A line about a stage. -/
def debug (text : String) : LogLine := ⟨.debug, text⟩

/-- A line about a detail. -/
def trace (text : String) : LogLine := ⟨.trace, text⟩

mutual

/-- The stretches that were skipped in a tree, from left to right. The empty mark
at the end of a broken type is none: nothing was skipped there. -/
def skipped : Node → List Node
  | ⟨kind, children, span⟩ =>
    match kind with
    | .error => [⟨kind, children, span⟩]
    | .typeRef => []
    | _ => skippedIn children

/-- The stretches that were skipped in a list of children. -/
def skippedIn : List Element → List Node
  | [] => []
  | .token _ :: rest => skippedIn rest
  | .node n :: rest => skipped n ++ skippedIn rest

end

/-- The line for a skipped stretch. -/
def skippedLine (n : Node) : LogLine :=
  let count := n.tokens.length
  let offset := n.span.start
  trace s!"recovered by skipping {count} tokens at offset {offset}"

/-- The lines of reading the tree. -/
def parsedLines (parsed : Parsed) : List LogLine :=
  let declared := (parsed.tree.nodes.filter (·.kind ≠ .error)).length
  let found := parsed.findings.length
  (skipped parsed.tree).map skippedLine
    ++ [debug s!"parsed {declared} declarations with {found} diagnostics"]

/-- The line of reading the document off the tree. -/
def builtLine (tree : Node) (d : Document) : LogLine :=
  let name := d.name
  let declared := d.declarations.length
  let found := tree.documentFindings.length
  debug s!"built '{name}' with {declared} declarations and {found} structural diagnostics"

/-- The lines of resolving a document. -/
def resolvedLines (scope : Scope) (d : Document) : List LogLine :=
  let name := d.name
  let total := d.typeRefs.length
  let resolved := total - (scope.unresolvedRefs d).length
  let used := (scope.usedImports d).length
  (scope.cyclicImports d).map (fun i =>
      let target := i.name
      debug s!"import '{target}' of '{name}' is part of a cycle")
    ++ (scope.unresolvedRefs d).map (fun t =>
      let raw := t.raw
      let offset := t.span.start
      trace s!"unresolved type '{raw}' at {offset}")
    ++ [debug s!"resolved {resolved}/{total} type references in '{name}' ({used} imports used)"]

/-- The lines of checking a resolved document. -/
def checkedLines (config : Config) (d : Document) : List LogLine :=
  let name := d.name
  let found := (validationFindings config d).length
  Check.all.map (fun check =>
      let title := check.name
      let count := (check.run config d).length
      trace s!"check '{title}' found {count} problems")
    ++ [debug s!"validated '{name}': {found} diagnostics"]

/-- The line that closes an analysis. -/
def analyzedLine (name : String) (analysis : Analysis) : LogLine :=
  let found := analysis.diagnostics.length
  let errors := analysis.errors.length
  debug s!"analyzed '{name}': {found} diagnostics ({errors} errors)"

/-- The journal of analysing a source. -/
def ofSource (source name : String) (imports : Imports) (config : Config) : List LogLine :=
  let stages := Stages.ofSource source name imports config
  let count := stages.tokens.length
  debug s!"lexed '{name}' into {count} tokens"
    :: parsedLines stages.parsed
    ++ builtLine stages.parsed.tree stages.document
    :: resolvedLines (Scope.ofDocument stages.document imports config) stages.document
    ++ checkedLines config stages.resolved.document
    ++ [analyzedLine name stages.analysis]

/-- The journal of analysing bytes. -/
def ofBytes (bytes : List UInt8) (name : String) (imports : Imports) (config : Config) :
    List LogLine :=
  match Text.Utf8.decode bytes with
  | .ok text => ofSource (String.ofList text) name imports config
  | .error (_, fault) =>
    let offset := fault.offset
    [debug s!"rejected '{name}': invalid UTF-8 at byte {offset}"]

end Journal

end MessageSchema
