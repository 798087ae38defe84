import MessageSchema.Check
import MessageSchema.Document.OfTree
import MessageSchema.Resolve
import MessageSchema.Text.Utf8
import MessageSchema.Tree.OfTokens

/-!
# Analysis

An analysis goes from the source to a resolved document with everything that
was found on the way. It never fails: whatever the source, there is a document.
Bytes that are no text give an empty document and one finding.
-/

namespace MessageSchema

/-- The intermediate results of an analysis. -/
structure Stages where
  tokens : List Token
  parsed : Parsed
  document : Document
  resolved : Resolved
  config : Config

namespace Stages

/-- All stages for a source. -/
def ofSource (source name : String) (imports : Imports) (config : Config) : Stages :=
  let tokens := tokenize source
  let parsed := parse tokens
  let document := parsed.tree.toDocument name
  ⟨tokens, parsed, document, resolve document imports config, config⟩

/-- What each stage found, each in the order of the places, one stage after the
other. -/
def stageDiagnostics (stages : Stages) : List Diagnostic :=
  stages.parsed.diagnostics ++ stages.parsed.tree.documentDiagnostics
    ++ stages.resolved.diagnostics ++ validate stages.config stages.resolved.document

end Stages

/-- The outcome of an analysis. -/
structure Analysis where
  document : Document
  symbols : SymbolTable
  /-- The findings of all stages in the order of their places. -/
  diagnostics : List Diagnostic

namespace Analysis

/-- Whether anything is wrong, and not only doubtful. -/
def hasErrors (analysis : Analysis) : Bool :=
  analysis.diagnostics.any Diagnostic.isError

/-- The findings that are errors. -/
def errors (analysis : Analysis) : List Diagnostic :=
  analysis.diagnostics.filter Diagnostic.isError

end Analysis

/-- The outcome of all stages. -/
def Stages.analysis (stages : Stages) : Analysis :=
  ⟨stages.resolved.document, stages.resolved.symbols,
    Diagnostic.sorted stages.stageDiagnostics⟩

/-- Analyses a source. -/
def analyze (source name : String) (imports : Imports) (config : Config) : Analysis :=
  (Stages.ofSource source name imports config).analysis

/-- The part of a text behind its last newline, and all of it if it has none. -/
def lastLine (text : List Char) : List Char :=
  (text.reverse.takeWhile (· ≠ '\n')).reverse

/-- The finding for bytes that are no text: where the text breaks off, and up to
the end of the bytes if they end inside a character. -/
def encodingFinding (bytes : List UInt8) (text : List Char) (fault : Text.Utf8.Fault) :
    Diagnostic :=
  ⟨.invalidEncoding fault.offset,
    { start := fault.offset
      stop := fault.offset + fault.length?.getD (bytes.length - fault.offset)
      line := text.count '\n' + 1
      column := (lastLine text).length + 1 }⟩

/-- Analyses bytes. -/
def analyzeBytes (bytes : List UInt8) (name : String) (imports : Imports) (config : Config) :
    Analysis :=
  match Text.Utf8.decode bytes with
  | .ok text => analyze (String.ofList text) name imports config
  | .error (text, fault) => ⟨.empty name, .empty, [encodingFinding bytes text fault]⟩

end MessageSchema
