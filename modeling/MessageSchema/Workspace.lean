import MessageSchema.Analysis

/-!
# Workspaces

A workspace is what a host keeps between analyses: the configuration, the
documents that were published for import, and the analysis of the document at
hand.
-/

namespace MessageSchema

/-- The state of a host. -/
structure Workspace where
  config : Config
  imports : Imports
  current : Analysis

namespace Workspace

/-- The workspace before anything is done: its document at hand is empty. -/
def initial : Workspace :=
  ⟨.standard, .empty, analyze "" "" .empty .standard⟩

/-- Analyses a source, which becomes the document at hand. -/
def analyze (w : Workspace) (source name : String) : Workspace :=
  { w with current := MessageSchema.analyze source name w.imports w.config }

/-- Analyses bytes, which become the document at hand. -/
def analyzeBytes (w : Workspace) (bytes : List UInt8) (name : String) : Workspace :=
  { w with current := MessageSchema.analyzeBytes bytes name w.imports w.config }

/-- Publishes the document at hand under a key. -/
def publish (w : Workspace) (key : String) : Workspace :=
  { w with imports := w.imports.insert key w.current.document }

/-- Publishes a document that is read but not resolved. -/
def publishUnresolved (w : Workspace) (key name source : String) : Workspace :=
  { w with imports := w.imports.insert key ((parseSource source).tree.toDocument name) }

/-- Withdraws all published documents. -/
def clearImports (w : Workspace) : Workspace :=
  { w with imports := .empty }

/-- The document at hand, resolved against what is published now. -/
def resolvedAgain (w : Workspace) : Resolved :=
  resolve w.current.document w.imports w.config

/-- Resolves the document at hand again. -/
def resolveAgain (w : Workspace) : Workspace :=
  { w with
    current :=
      { w.current with
        document := w.resolvedAgain.document
        symbols := w.resolvedAgain.symbols } }

end Workspace

end MessageSchema
