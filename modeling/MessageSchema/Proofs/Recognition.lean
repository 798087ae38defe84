import MessageSchema.Proofs.Acceptance

/-!
# Reading token lists is exact

What was proved of the rules is put together for whole token lists. A list whose
significant tokens are phrases is read into the tree of these phrases, and the
findings are the faults that the tokens brought along. Any other list gives at
least one finding of the grammar's own.

The main statement says for every token list that reading it adds no
`unexpectedToken` and no `missingName` exactly if the kinds of the tokens that
the grammar sees form a word of the documented grammar, and that the tree then
has no `error` node. Tokens are taken as they come: a fault of any sort that a
token carries is passed on, so the statement counts what is added to them.
-/

namespace MessageSchema

open Phrase

/-! ## The nodes of phrases -/

/-- A walk through nodes that stand side by side is one walk after the other. -/
theorem Element.preorderOf_nodes {α : Type} (node : α → Node) (items : List α) :
    Element.preorderOf (items.map fun item => .node (node item))
      = items.flatMap fun item => (node item).preorder := by
  induction items with
  | nil => rfl
  | cons item rest ih => simp [Element.preorderOf, Element.preorder, ih]

namespace Phrase

/-- A walk of the node of a phrase begins with the node and goes on through its children. -/
theorem preorder_nodeOver (kind : NodeKind) (elements : List Element) :
    (nodeOver kind elements).preorder = nodeOver kind elements :: Element.preorderOf elements := rfl

/-- The node of a dotted name has no node below it. -/
theorem Dotted.preorder_node (d : Dotted) : d.node.preorder = [d.node] := by
  rw [Dotted.node, preorder_nodeOver, Element.preorderOf_tokens]

/-- The node of an import has no node below it. -/
theorem Importing.preorder_node (i : Importing) : i.node.preorder = [i.node] := by
  rw [Importing.node, preorder_nodeOver, Element.preorderOf_tokens]

/-- The node of a variant has no node below it. -/
theorem Variant.preorder_node (v : Variant) : v.node.preorder = [v.node] := by
  rw [Variant.node, preorder_nodeOver, Element.preorderOf_tokens]

/-- Below the node of a field there is the one of its type, if it has one. -/
theorem Field.preorder_node (f : Field) :
    f.node.preorder = f.node :: (f.type.map fun pair => pair.2.node).toList := by
  have type : Element.preorderOf f.typeElements = (f.type.map fun pair => pair.2.node).toList := by
    unfold Field.typeElements
    cases f.type with
    | none => rfl
    | some pair => simp [Element.preorderOf, Element.preorder, Dotted.preorder_node]
  rw [Field.node, preorder_nodeOver, Field.elements]
  simp [Element.preorderOf_append, Element.preorderOf, Element.preorder, type,
    Element.preorderOf_tokens]

/-- Among the children of a block the nodes are those of the items. -/
theorem Block.preorder_elements {word : Keyword} {Item : Type} (itemNode : Item → Node)
    (b : Block word Item) :
    Element.preorderOf (b.elements itemNode)
      = b.items.flatMap fun item => (itemNode item).preorder := by
  simp [Block.elements, Element.preorderOf_append, Element.preorderOf, Element.preorder,
    Element.preorderOf_nodes]

/-- Nothing is skipped in a phrase.

Proof: the nodes below a phrase are known by the kind of the phrase, and none is for an error.
-/
theorem Declaration.node_kinds (phrase : Declaration) :
    ∀ n ∈ phrase.node.preorder, n.kind ≠ .error := by
  cases phrase with
  | importing i =>
    intro n member
    rw [Declaration.node, Importing.preorder_node, List.mem_singleton] at member
    rw [member]
    exact nofun
  | message b =>
    intro n member
    rw [Declaration.node, preorder_nodeOver, Block.preorder_elements] at member
    simp only [Field.preorder_node, List.mem_cons, List.mem_flatMap, Option.mem_toList,
      Option.map_eq_some_iff] at member
    rcases member with rfl | ⟨field, -, rfl | ⟨pair, -, rfl⟩⟩ <;> exact nofun
  | enum b =>
    intro n member
    rw [Declaration.node, preorder_nodeOver, Block.preorder_elements] at member
    simp only [Variant.preorder_node, List.mem_cons, List.mem_flatMap, List.not_mem_nil,
      or_false] at member
    rcases member with rfl | ⟨variant, -, rfl⟩ <;> exact nofun

end Phrase

/-! ## Whole token lists -/

/-- The nodes right below a document that was read from phrases are theirs, each in
its place. -/
theorem nodes_documentNode_phrases (phrases : List Phrase.Declaration) (last : Token) :
    (documentNode (phrases.map fun phrase => .node phrase.node) last).nodes
      = phrases.map Phrase.Declaration.node := by
  rw [nodes_documentNode, List.filterMap_map]
  exact congrFun List.filterMap_eq_map' phrases

/-- All nodes of a document that was read from phrases. -/
theorem preorder_documentNode (phrases : List Phrase.Declaration) (last : Token) :
    (documentNode (phrases.map fun phrase => .node phrase.node) last).preorder
      = documentNode (phrases.map fun phrase => .node phrase.node) last
        :: phrases.flatMap fun phrase => phrase.node.preorder := by
  rw [documentNode, Node.preorder, Element.preorderOf_append, Element.preorderOf_nodes]
  simp [Element.preorderOf, Element.preorder]

/-- The end token of a list has the kind of an end, whether it was found or made up. -/
theorem endToken_kind (tokens : List Token) : (endToken tokens).kind = .eof := by
  unfold endToken
  split
  · next t found =>
    have isEnd := List.find?_some found
    simpa using isEnd
  · rfl

/-- The kinds of the tokens that the grammar sees, the end token included. -/
def grammarWord (tokens : List Token) : List TokenKind :=
  (significant tokens ++ [endToken tokens]).map Token.kind

/-- A token list is a word of the grammar exactly if what is significant in it is made of
declarations. The end token is left out on one side and asked for on the other. -/
theorem grammarWord_iff (tokens : List Token) :
    grammarWord tokens ∈ Grammar.document.matches' ↔ ∃ phrases : List Phrase.Declaration,
      significant tokens = phrases.flatMap Phrase.Declaration.tokens := by
  rw [grammarWord, List.map_append, List.map_singleton, endToken_kind, Grammar.document_word_iff]
  constructor
  · rintro ⟨phrases, same⟩
    exact ⟨phrases, same.symm⟩
  · rintro ⟨phrases, same⟩
    exact ⟨phrases, same.symm⟩

/-- Phrases are read into their own nodes, and nothing is reported of them. -/
theorem parse_phrases {tokens : List Token} (phrases : List Phrase.Declaration)
    (seen : significant tokens = phrases.flatMap Phrase.Declaration.tokens) :
    parse tokens
      = ⟨documentNode (phrases.map fun phrase => .node phrase.node) (endToken tokens),
        tokenFindings tokens⟩ := by
  have accepted := Rule.declarations_accept phrases (s := .start tokens) rfl seen
  rw [parse, accepted]
  rfl

/-- What reading adds to the faults of the tokens are findings of the grammar,
each about a token that the grammar sees. -/
theorem parse_findings (tokens : List Token) :
    ∃ added, (parse tokens).findings = tokenFindings tokens ++ added
      ∧ ∀ d ∈ added, Run.Reported (significant tokens ++ [endToken tokens]) d :=
  (Rule.declarations_run (.start tokens)).added

/-- A reading that adds nothing has read phrases. -/
theorem exists_phrases_of_findings {tokens : List Token}
    (quiet : (parse tokens).findings = tokenFindings tokens) :
    ∃ phrases : List Phrase.Declaration,
      significant tokens = phrases.flatMap Phrase.Declaration.tokens := by
  rcases Rule.declarations_reads (.start tokens) rfl with found | complains
  · exact found
  · have more : (tokenFindings tokens).length < (parse tokens).findings.length := complains
    rw [quiet] at more
    exact absurd more (Nat.lt_irrefl _)

/-- The grammar finds nothing exactly where the word belongs to it. -/
theorem findings_eq_iff (tokens : List Token) :
    (parse tokens).findings = tokenFindings tokens
      ↔ grammarWord tokens ∈ Grammar.document.matches' := by
  rw [grammarWord_iff]
  constructor
  · exact exists_phrases_of_findings
  · rintro ⟨phrases, seen⟩
    rw [parse_phrases phrases seen]

/-- In the tree of a word nothing was skipped: all its nodes are those of phrases. -/
theorem parse_nodes_of_word {tokens : List Token}
    (word : grammarWord tokens ∈ Grammar.document.matches') :
    ∀ n ∈ (parse tokens).tree.preorder, n.kind ≠ .error := by
  obtain ⟨phrases, seen⟩ := (grammarWord_iff tokens).mp word
  intro n member
  rw [parse_phrases phrases seen, preorder_documentNode, List.mem_cons, List.mem_flatMap] at member
  rcases member with rfl | ⟨phrase, -, inside⟩
  · exact nofun
  · exact phrase.node_kinds n inside

/-- The findings of a sort that two lists share do not depend on their order. -/
theorem filter_sorted_perm (p : Diagnostic → Bool) (ds : List Diagnostic) :
    ((Diagnostic.sorted ds).filter p).Perm (ds.filter p) :=
  (Diagnostic.sorted_perm ds).filter p

/-- Reading adds no `unexpectedToken` and no `missingName` to those that the
tokens carry as their faults exactly if the kinds of the tokens that the grammar
sees are a word of the grammar, and in that case nothing was skipped.

Every finding that is added is of one of the two sorts, so if their number stays
the same nothing was added; and a word of the grammar is read without a report.

Proof: what reading adds are reports of the grammar, so counting them is counting what was
added. That nothing was added is equivalent to phrases being ahead all the way, one direction by
acceptance and the other because every rule complains where its phrase is not ahead. -/
theorem accepts_exactly_grammar (tokens : List Token) :
    (((parse tokens).diagnostics.filter (·.problem.isSyntactic)).Perm
        ((tokenFindings tokens).filter (·.problem.isSyntactic))
      ↔ grammarWord tokens ∈ Grammar.document.matches')
    ∧ (grammarWord tokens ∈ Grammar.document.matches' →
      ∀ n ∈ (parse tokens).tree.preorder, n.kind ≠ .error) := by
  refine ⟨?_, parse_nodes_of_word⟩
  rw [← findings_eq_iff]
  obtain ⟨added, same, reported⟩ := parse_findings tokens
  have counted : (added.filter (·.problem.isSyntactic)) = added :=
    List.filter_eq_self.mpr fun d member => (reported d member).syntactic
  constructor
  · intro perm
    have lengths := ((filter_sorted_perm _ _).symm.trans perm).length_eq
    rw [same, List.filter_append, counted, List.length_append] at lengths
    have none_added : added = [] := List.length_eq_zero_iff.mp (by omega)
    rw [same, none_added, List.append_nil]
  · intro quiet
    rw [Parsed.diagnostics, quiet]
    exact filter_sorted_perm _ _

/-- The tokens of `import a.b;`, without an end token. -/
def importStatement : List Token :=
  [⟨.keyword .importing, "import", ⟨0, 6, 1, 1⟩, none⟩, ⟨.identifier, "a", ⟨7, 8, 1, 8⟩, none⟩,
    ⟨.punct .dot, ".", ⟨8, 9, 1, 9⟩, none⟩, ⟨.identifier, "b", ⟨9, 10, 1, 10⟩, none⟩,
    ⟨.punct .semicolon, ";", ⟨10, 11, 1, 11⟩, none⟩]

/-- An import statement is accepted, and nothing is skipped in it. -/
theorem accepts_importStatement :
    ((parse importStatement).diagnostics.filter (·.problem.isSyntactic)).Perm
        ((tokenFindings importStatement).filter (·.problem.isSyntactic))
      ∧ ∀ n ∈ (parse importStatement).tree.preorder, n.kind ≠ .error :=
  ⟨(accepts_exactly_grammar importStatement).1.mpr (by decide),
    (accepts_exactly_grammar importStatement).2 (by decide)⟩

/-- An end token with a fault that is not the lexer's. -/
def faultyEnd : Token :=
  ⟨.eof, "", .origin, some (.missingName "name")⟩

/-- Faults are passed on whatever they are, so that a word of the grammar can come
with a `missingName` that reading it did not add. -/
theorem carried_fault_on_grammar_word :
    ¬ ∀ tokens : List Token, ((∀ d ∈ (parse tokens).diagnostics, d.problem.isSyntactic = false)
      ↔ grammarWord tokens ∈ Grammar.document.matches') := by
  intro exact_always
  have word : grammarWord [faultyEnd] ∈ Grammar.document.matches' := by decide
  have carried : (⟨.missingName "name", .origin⟩ : Diagnostic) ∈ (parse [faultyEnd]).diagnostics := by
    rw [Parsed.diagnostics, (Diagnostic.sorted_perm _).mem_iff, (findings_eq_iff _).mpr word]
    exact List.mem_singleton_self _
  exact Bool.noConfusion ((exact_always [faultyEnd]).mpr word _ carried)

end MessageSchema
