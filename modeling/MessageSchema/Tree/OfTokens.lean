import MessageSchema.Tree.Body
import MessageSchema.Token.Stream

/-!
# Trees of token lists

The grammar sees the significant tokens of a list up to its first end token;
where there is no end token, one is put behind the last significant token. The
faults that the tokens carry are reported before what the grammar finds.
-/

namespace MessageSchema

/-- The tokens that are read: those up to the first end token. -/
def beforeEnd (tokens : List Token) : List Token :=
  tokens.takeWhile (·.kind ≠ .eof)

/-- The tokens that the grammar sees, the end token excluded. -/
def significant (tokens : List Token) : List Token :=
  (beforeEnd tokens).filter (·.kind.isSignificant)

/-- The end token of a list, or one right behind its last significant token. -/
def endToken (tokens : List Token) : Token :=
  match tokens.find? (·.kind = .eof) with
  | some t => t
  | none =>
    ⟨.eof, "", ((significant tokens).getLast?.map Token.pointAfter).getD .origin, none⟩

/-- The faults of the tokens that are read, the end token included. -/
def tokenFindings (tokens : List Token) : List Diagnostic :=
  (beforeEnd tokens).filterMap Token.finding?
    ++ ((tokens.find? (·.kind = .eof)).bind Token.finding?).toList

/-- A tree with the findings in the order in which they were made. -/
structure Parsed where
  tree : Node
  findings : List Diagnostic

/-- The findings in the order of their places. -/
def Parsed.diagnostics (parsed : Parsed) : List Diagnostic :=
  Diagnostic.sorted parsed.findings

/-- The state before the first significant token. -/
def ParseState.start (tokens : List Token) : ParseState :=
  ⟨significant tokens, endToken tokens, [], false, tokenFindings tokens⟩

/-- The node of a whole document: it begins where the source begins, and its last
child is the end token. -/
def documentNode (children : List Element) (last : Token) : Node :=
  ⟨.document, children ++ [.token last], ⟨0, last.span.stop, 1, 1⟩⟩

/-- The end of the text, which closes a document, is no node. -/
theorem nodes_documentNode (children : List Element) (last : Token) :
    (documentNode children last).nodes = children.filterMap Element.node? := by
  rw [Node.nodes, documentNode, List.filterMap_append]
  exact List.append_nil _

/-- The tree of a token list. -/
def parse (tokens : List Token) : Parsed :=
  let s := Rule.declarations (.start tokens)
  ⟨documentNode s.children s.last, s.reports⟩

/-- The tree of a source. -/
def parseSource (source : String) : Parsed :=
  parse (tokenize source)

end MessageSchema
