import MessageSchema.Config.Json
import MessageSchema.Data.Encode
import MessageSchema.Data.Yaml
import MessageSchema.Journal
import MessageSchema.Proofs.Acceptance
import MessageSchema.Proofs.Apart
import MessageSchema.Proofs.Assignments
import MessageSchema.Proofs.Beginnings
import MessageSchema.Proofs.Boundary
import MessageSchema.Proofs.Checks
import MessageSchema.Proofs.Containment
import MessageSchema.Proofs.Cycles
import MessageSchema.Proofs.Definitions
import MessageSchema.Proofs.Denotation
import MessageSchema.Proofs.Dependence
import MessageSchema.Proofs.Duplicates
import MessageSchema.Proofs.Encoding
import MessageSchema.Proofs.Erasure
import MessageSchema.Proofs.Escapes
import MessageSchema.Proofs.Extension
import MessageSchema.Proofs.Findings
import MessageSchema.Proofs.Formatting
import MessageSchema.Proofs.Grammar
import MessageSchema.Proofs.Headings
import MessageSchema.Proofs.Highlights
import MessageSchema.Proofs.Identity
import MessageSchema.Proofs.Innermost
import MessageSchema.Proofs.Keywords
import MessageSchema.Proofs.Layout
import MessageSchema.Proofs.Leaves
import MessageSchema.Proofs.Locality
import MessageSchema.Proofs.MissingNames
import MessageSchema.Proofs.Nesting
import MessageSchema.Proofs.NumberTokens
import MessageSchema.Proofs.Numerals
import MessageSchema.Proofs.Ordering
import MessageSchema.Proofs.Outline
import MessageSchema.Proofs.Parts
import MessageSchema.Proofs.Phrases
import MessageSchema.Proofs.Places
import MessageSchema.Proofs.Positions
import MessageSchema.Proofs.Productions
import MessageSchema.Proofs.Quotations
import MessageSchema.Proofs.Recognition
import MessageSchema.Proofs.Recovered
import MessageSchema.Proofs.References
import MessageSchema.Proofs.Relocation
import MessageSchema.Proofs.Removal
import MessageSchema.Proofs.Renewal
import MessageSchema.Proofs.Reports
import MessageSchema.Proofs.Resolution
import MessageSchema.Proofs.Restart
import MessageSchema.Proofs.Runs
import MessageSchema.Proofs.Search
import MessageSchema.Proofs.Settings
import MessageSchema.Proofs.Shapes
import MessageSchema.Proofs.Shift
import MessageSchema.Proofs.Simulation
import MessageSchema.Proofs.Sorting
import MessageSchema.Proofs.Soundness
import MessageSchema.Proofs.Spans
import MessageSchema.Proofs.Streams
import MessageSchema.Proofs.Symbols
import MessageSchema.Proofs.Tiling
import MessageSchema.Proofs.Walks
import MessageSchema.Query
import MessageSchema.Report.Render
import MessageSchema.Workspace
