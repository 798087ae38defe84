import Mathlib.Data.List.TakeWhile
import MessageSchema.Document.OfTree
import MessageSchema.Proofs.Phrases

/-!
# What the nodes of phrases denote

A document is read off a tree by looking for tokens and nodes in the children of
a node. For the node of a phrase each of these look-ups finds the part of the
phrase that it is meant to find: the name behind the keyword, the modifiers in
their order, the number behind the equals sign, the type. So the declaration and
the findings of such a node can be told from the phrase alone.

Every look-up is settled once, and what follows is stated through the look-ups.
-/

namespace MessageSchema

/-! ## Look-ups in a node -/

namespace Node

/-- The token behind the first one of a kind, if it is known which one is first. -/
theorem tokenAfter?_of_split {n : Node} {kind : TokenKind} {before rest : List Token} {t : Token}
    (split : n.tokens = before ++ t :: rest) (first : ∀ u ∈ before, u.kind ≠ kind)
    (found : t.kind = kind) : n.tokenAfter? kind = rest.head? := by
  have skipped : (before ++ t :: rest).dropWhile (·.kind ≠ kind) = t :: rest := by
    rw [List.dropWhile_append_of_pos (by simpa using first), List.dropWhile_cons_of_neg]
    simpa using found
  rw [tokenAfter?, split, skipped]
  rfl

/-- Without a token of a kind there is none behind it either. -/
theorem tokenAfter?_of_absent {n : Node} {kind : TokenKind} (absent : ∀ t ∈ n.tokens, t.kind ≠ kind) :
    n.tokenAfter? kind = none := by
  have skipped : n.tokens.dropWhile (·.kind ≠ kind) = [] :=
    List.dropWhile_eq_nil_iff.mpr (by simpa using absent)
  rw [tokenAfter?, skipped]
  rfl

/-- The identifier right behind a keyword is the name. -/
theorem nameAfter_of_split {n : Node} {word : Keyword} {before rest : List Token} {t name : Token}
    (split : n.tokens = before ++ t :: name :: rest)
    (first : ∀ u ∈ before, u.kind ≠ .keyword word) (found : t.kind = .keyword word)
    (named : name.kind = .identifier) : n.nameAfter word = ⟨name.lexeme, name.span⟩ := by
  have behind : n.tokenAfter? (.keyword word) = some name :=
    tokenAfter?_of_split split first found
  rw [nameAfter, behind]
  exact if_pos named

/-- Findings count in a node in which nothing was skipped. -/
theorem findings_of_sound {n : Node} (sound : n.hasError = false) (found : List Diagnostic) :
    n.findings found = found := by
  rw [findings, sound]
  rfl

end Node

/-- A number is no modifier. -/
theorem TokenKind.isModifier_of_isNumber {kind : TokenKind} (number : kind.isNumber = true) :
    kind.isModifier = false := by
  cases kind with
  | keyword word => exact Bool.noConfusion number
  | _ => rfl

namespace Phrase

/-! ## Children of phrase nodes -/

/-- The tokens below a node that was built from tokens are these tokens. -/
theorem tokens_of_tokens (kind : NodeKind) (tokens : List Token) :
    (nodeOver kind (tokens.map .token)).tokens = tokens := by
  show (tokens.map Element.token).filterMap Element.token? = tokens
  rw [List.filterMap_map]
  exact List.filterMap_some

/-- A node that was built from tokens has no nodes below it. -/
theorem nodes_of_tokens (kind : NodeKind) (tokens : List Token) :
    (nodeOver kind (tokens.map .token)).nodes = [] := by
  show (tokens.map Element.token).filterMap Element.node? = []
  rw [List.filterMap_map]
  exact List.filterMap_eq_nil_iff.mpr fun _ _ => rfl

/-- In a node that was built from tokens nothing was skipped. -/
theorem hasError_of_tokens (kind : NodeKind) (tokens : List Token) :
    (nodeOver kind (tokens.map .token)).hasError = false := by
  rw [Node.hasError, nodes_of_tokens]
  rfl

/-! ## Numbers -/

/-- The number that an ending gives. -/
def Ending.number? (e : Ending) : Option Token :=
  e.number.map (·.2.val)

/-- The number of an ending is one of its tokens. -/
theorem Ending.number?_mem {e : Ending} {t : Token} (given : t ∈ e.number?) : t ∈ e.tokens := by
  obtain ⟨pair, found, rfl⟩ := Option.map_eq_some_iff.mp given
  simp [Ending.tokens, found]

/-- No token of an ending is a modifier. -/
theorem Ending.tokens_kinds (e : Ending) : ∀ t ∈ e.tokens, t.kind.isModifier = false := by
  obtain ⟨number, semicolon⟩ := e
  intro t member
  rcases List.mem_append.mp member with inside | last
  · cases number with
    | none => exact absurd inside List.not_mem_nil
    | some pair =>
      rcases List.mem_cons.mp inside with rfl | number
      · rw [pair.1.property]
        rfl
      · rw [List.mem_singleton.mp number]
        exact TokenKind.isModifier_of_isNumber pair.2.property
  · rw [List.mem_singleton.mp last, semicolon.property]
    rfl

/-- The number of a node that ends as a phrase does. Only the ending has an
equals sign, so what the look-up meets first is the right one. -/
theorem numberToken?_of_ending {n : Node} {before : List Token} (e : Ending)
    (split : n.tokens = before ++ e.tokens) (first : ∀ u ∈ before, u.kind ≠ .punct .equals) :
    n.numberToken? = e.number? := by
  obtain ⟨number, semicolon⟩ := e
  cases number with
  | none =>
    apply Node.tokenAfter?_of_absent
    rw [split]
    intro t member
    rcases List.mem_append.mp member with inside | last
    · exact first t inside
    · rw [List.mem_singleton.mp last, semicolon.property]
      exact nofun
  | some pair =>
    obtain ⟨equals, number⟩ := pair
    exact Node.tokenAfter?_of_split split first equals.property

/-- The findings about the number of a node, told from its ending. -/
theorem numberFindings_of_ending {n : Node} {e : Ending} (usable : String → Bool)
    (problem : String → Problem) (number : n.numberToken? = e.number?)
    (faultless : ∀ t ∈ e.number?, t.fault = none) :
    n.numberFindings usable problem
      = (e.number?.filter (fun t => !usable t.lexeme)).toList.map
        fun t => ⟨problem t.lexeme, t.span⟩ := by
  rw [Node.numberFindings, number]
  cases given : e.number? with
  | none => rfl
  | some t =>
    have sound : t.fault = none := faultless t given
    cases use : usable t.lexeme <;> simp [use, sound, Option.filter]

/-! ## Dotted names -/

namespace Dotted

/-- A dotted name as one text. -/
def text (d : Dotted) : String :=
  String.join (d.tokens.map (·.lexeme))

/-- The tokens of a dotted name are identifiers and dots, and the last one is an
identifier. -/
theorem tokens_kinds (d : Dotted) :
    ∀ t ∈ d.tokens, t.kind = .identifier ∨ t.kind = .punct .dot := by
  intro t member
  rcases List.mem_cons.mp member with rfl | inside
  · exact .inl d.first.property
  · obtain ⟨pair, -, here⟩ := List.mem_flatMap.mp inside
    rcases List.mem_cons.mp here with rfl | last
    · exact .inr pair.1.property
    · rw [List.mem_singleton.mp last]
      exact .inl pair.2.property

/-- A dotted name ends in an identifier, whether it has dots or not. By the last pair of a dot
and an identifier, if there is one. -/
theorem exists_last (d : Dotted) :
    ∃ before last, d.tokens = before ++ [last] ∧ last.kind = .identifier := by
  obtain ⟨first, more⟩ := d
  rcases List.eq_nil_or_concat more with rfl | ⟨others, pair, rfl⟩
  · exact ⟨[], first.val, rfl, first.property⟩
  · refine ⟨first.val :: tailTokens others ++ [pair.1.val], pair.2.val, ?_, pair.2.property⟩
    simp [tokens, tailTokens]

end Dotted

/-! ## Fields -/

namespace Field

/-- The name of a field is one of its tokens. -/
theorem name_mem (f : Field) : f.name.val ∈ f.tokens := by
  simp [tokens]

/-- The number of a field is one of its tokens. -/
theorem number?_mem {f : Field} {t : Token} (given : t ∈ f.ending.number?) : t ∈ f.tokens :=
  List.mem_append_right _ (Ending.number?_mem given)

/-- The colon is the only part of a type that stands right below the field. -/
theorem tokens_node (f : Field) :
    f.node.tokens = f.modifiers.map Subtype.val
      ++ f.keyword.val :: f.name.val :: (f.type.map (·.1.val)).toList ++ f.ending.tokens := by
  have type : f.typeElements.filterMap Element.token? = (f.type.map (·.1.val)).toList := by
    unfold typeElements
    cases f.type <;> rfl
  have tokens : ∀ l : List Token, (l.map Element.token).filterMap Element.token? = l :=
    tokens_of_tokens .field
  have modifiers : (f.modifiers.map fun m => Element.token m.val)
      = (f.modifiers.map Subtype.val).map Element.token := by simp
  show f.elements.filterMap Element.token? = _
  rw [elements, modifiers, List.filterMap_append, List.filterMap_append, tokens, tokens, ← type]
  rfl

/-- Below the node of a field stands the node of its type, and none if the field has no type.
All other children are tokens, and looking for nodes passes over them. -/
theorem nodes_node (f : Field) : f.node.nodes = (f.type.map (·.2.node)).toList := by
  have type : f.typeElements.filterMap Element.node? = (f.type.map (·.2.node)).toList := by
    unfold typeElements
    cases f.type <;> rfl
  have tokens : ∀ l : List Token, (l.map Element.token).filterMap Element.node? = [] :=
    nodes_of_tokens .field
  have modifiers : (f.modifiers.map fun m => Element.token m.val)
      = (f.modifiers.map Subtype.val).map Element.token := by simp
  show f.elements.filterMap Element.node? = _
  rw [elements, modifiers, List.filterMap_append, List.filterMap_append, tokens, tokens, ← type,
    List.append_nil]
  rfl

/-- In the node of a field nothing was skipped. -/
theorem hasError_node (f : Field) : f.node.hasError = false := by
  rw [Node.hasError, nodes_node]
  cases f.type <;> rfl

/-- No modifier is a keyword of another use. -/
theorem modifiers_kinds (f : Field) {kind : TokenKind} (other : kind.isModifier = false) :
    ∀ t ∈ f.modifiers.map Subtype.val, t.kind ≠ kind := by
  rintro t member rfl
  obtain ⟨m, -, rfl⟩ := List.mem_map.mp member
  rw [m.property] at other
  exact Bool.noConfusion other

/-- What stands right below a field between its modifiers and its ending. -/
theorem middle_kinds (f : Field) :
    ∀ t ∈ f.keyword.val :: f.name.val :: (f.type.map (·.1.val)).toList,
      t.kind ∈ [.keyword .field, .identifier, .punct .colon] := by
  intro t member
  simp only [List.mem_cons, Option.mem_toList, Option.map_eq_some_iff] at member
  rcases member with rfl | rfl | ⟨pair, -, rfl⟩
  · rw [f.keyword.property]
    decide
  · rw [f.name.property]
    decide
  · rw [pair.1.property]
    decide

/-- The name that is read off the node of a field is the name of the phrase. Only modifiers
stand before the keyword. -/
theorem nameAfter_node (f : Field) :
    f.node.nameAfter .field = ⟨f.name.val.lexeme, f.name.val.span⟩ := by
  have split := f.tokens_node
  rw [List.append_assoc] at split
  exact Node.nameAfter_of_split split (f.modifiers_kinds rfl) f.keyword.property f.name.property

/-- The number that is read off the node of a field is the one in its ending. No token before
the ending is an equals sign. -/
theorem numberToken?_node (f : Field) : f.node.numberToken? = f.ending.number? := by
  refine numberToken?_of_ending f.ending f.tokens_node ?_
  intro t member
  rcases List.mem_append.mp member with inside | inside
  · exact f.modifiers_kinds rfl t inside
  · intro equals
    have kind := f.middle_kinds t inside
    rw [equals] at kind
    exact absurd kind (by decide)

/-- The modifiers of a field are those of the phrase: nothing behind its keyword
is one.

Proof: the tokens of the field are its modifiers, its middle and its ending. All of the first
are modifiers, and none of the others is. -/
theorem modifiers_node (f : Field) : f.node.modifiers = f.modifiers.map Subtype.val := by
  have leading : (f.modifiers.map Subtype.val).filter (·.kind.isModifier)
      = f.modifiers.map Subtype.val := by
    apply List.filter_eq_self.mpr
    intro t member
    obtain ⟨m, -, rfl⟩ := List.mem_map.mp member
    exact m.property
  have behind : (f.keyword.val :: f.name.val :: (f.type.map (·.1.val)).toList).filter
      (·.kind.isModifier) = [] := by
    apply List.filter_eq_nil_iff.mpr
    intro t member
    have kind := f.middle_kinds t member
    simp only [List.mem_cons, List.not_mem_nil, or_false] at kind
    rcases kind with same | same | same <;> rw [same] <;> decide
  have ending : f.ending.tokens.filter (·.kind.isModifier) = [] := by
    apply List.filter_eq_nil_iff.mpr
    intro t member
    rw [f.ending.tokens_kinds t member]
    decide
  rw [Node.modifiers, tokens_node, List.filter_append, List.filter_append, leading, behind, ending,
    List.append_nil, List.append_nil]

/-- The first type that is found below the node of a field is the type of the phrase. -/
theorem firstNode?_node (f : Field) : f.node.firstNode? .typeRef = f.type.map (·.2.node) := by
  rw [Node.firstNode?, nodes_node]
  cases f.type <;> rfl

/-- The type that is read off the node of a field is the text of the dotted name, not resolved
yet. -/
theorem fieldType_node (f : Field) :
    f.node.fieldType = f.type.map fun pair => ⟨pair.2.text, .unresolved, pair.2.node.span⟩ := by
  rw [Node.fieldType, firstNode?_node]
  cases f.type with
  | none => rfl
  | some pair =>
    have sound : pair.2.node.hasError = false := hasError_of_tokens _ _
    have tokens : pair.2.node.tokens = pair.2.tokens := tokens_of_tokens _ _
    simp [sound, tokens, Dotted.text]

/-- The field that the node of a phrase denotes. -/
theorem toField_node (f : Field) :
    f.node.toField =
      { name := f.name.val.lexeme
        nameSpan := f.name.val.span
        modifier := f.modifiers.head?.map fun m => Node.modifierOf m.val.kind
        typeRef := f.type.map fun pair => ⟨pair.2.text, .unresolved, pair.2.node.span⟩
        tag := f.ending.number?.bind fun t => Node.tagOf? t.lexeme
        tagSpan := f.ending.number?.map (·.span)
        span := f.node.span } := by
  have first : (f.modifiers.map Subtype.val).head?.map (fun t => Node.modifierOf t.kind)
      = f.modifiers.head?.map fun m => Node.modifierOf m.val.kind := by
    cases f.modifiers <;> rfl
  rw [Node.toField, nameAfter_node, modifiers_node, fieldType_node, numberToken?_node, first]

/-- What is wrong with a field whose tokens are sound: every modifier behind the
first, no type, a number that is no tag. -/
theorem fieldFindings_node (f : Field) (sound : ∀ t ∈ f.ending.number?, t.fault = none) :
    f.node.fieldFindings
      = (f.modifiers.drop 1).map
          (fun m => ⟨.conflictingModifiers f.name.val.lexeme m.val.lexeme, m.val.span⟩)
        ++ (if f.type.isNone then [⟨.missingType f.name.val.lexeme, f.name.val.span⟩] else [])
        ++ (f.ending.number?.filter fun t => !(Node.tagOf? t.lexeme).isSome).toList.map
          fun t => ⟨.invalidTag t.lexeme, t.span⟩ := by
  have number := numberFindings_of_ending (fun lexeme => (Node.tagOf? lexeme).isSome) .invalidTag
    f.numberToken?_node sound
  have untyped : (f.type.map (·.2.node)).isNone = f.type.isNone := by
    cases f.type <;> rfl
  rw [Node.fieldFindings, Node.findings_of_sound f.hasError_node, nameAfter_node, modifiers_node,
    firstNode?_node, number, untyped, ← List.map_drop, List.map_map]
  rfl

end Field

/-! ## Variants -/

namespace Variant

/-- The name of a variant is one of its tokens. -/
theorem name_mem (v : Variant) : v.name.val ∈ v.tokens :=
  List.mem_cons_self

/-- The number of a variant is one of its tokens. -/
theorem number?_mem {v : Variant} {t : Token} (given : t ∈ v.ending.number?) : t ∈ v.tokens :=
  List.mem_cons_of_mem _ (Ending.number?_mem given)

/-- The tokens of a variant are its name and those of its ending. -/
theorem tokens_node (v : Variant) : v.node.tokens = [v.name.val] ++ v.ending.tokens :=
  tokens_of_tokens _ _

/-- In the node of a variant nothing was skipped. -/
theorem hasError_node (v : Variant) : v.node.hasError = false :=
  hasError_of_tokens _ _

/-- The name that is read off the node of a variant is its first token. -/
theorem variantName_node (v : Variant) :
    v.node.variantName = ⟨v.name.val.lexeme, v.name.val.span⟩ := by
  have first : v.node.firstToken? .identifier = some v.name.val := by
    rw [Node.firstToken?, tokens_node]
    exact List.find?_cons_of_pos (decide_eq_true v.name.property)
  rw [Node.variantName, first]

/-- The number that is read off the node of a variant is the one in its ending, since the name
is no equals sign. -/
theorem numberToken?_node (v : Variant) : v.node.numberToken? = v.ending.number? := by
  refine numberToken?_of_ending v.ending v.tokens_node ?_
  intro t member
  rw [List.mem_singleton.mp member, v.name.property]
  exact nofun

/-- The variant that the node of a phrase denotes. -/
theorem toVariant_node (v : Variant) :
    v.node.toVariant =
      { name := v.name.val.lexeme
        nameSpan := v.name.val.span
        value := v.ending.number?.bind fun t => Node.valueOf? t.lexeme
        valueSpan := v.ending.number?.map (·.span)
        span := v.node.span } := by
  rw [Node.toVariant, variantName_node, numberToken?_node]

/-- What is wrong with a variant whose tokens are sound: no number, or one that
is no value. -/
theorem variantFindings_node (v : Variant) (sound : ∀ t ∈ v.ending.number?, t.fault = none) :
    v.node.variantFindings
      = (if v.ending.number?.isNone
          then [⟨.missingVariantValue v.name.val.lexeme, v.name.val.span⟩] else [])
        ++ (v.ending.number?.filter fun t => !(Node.valueOf? t.lexeme).isSome).toList.map
          fun t => ⟨.invalidEnumValue t.lexeme, t.span⟩ := by
  have number := numberFindings_of_ending (fun lexeme => (Node.valueOf? lexeme).isSome)
    .invalidEnumValue v.numberToken?_node sound
  rw [Node.variantFindings, Node.findings_of_sound v.hasError_node, variantName_node, number,
    numberToken?_node]
  cases v.ending.number? <;> simp

end Variant

/-! ## Imports -/

namespace Importing

/-- The tokens of what is imported are tokens of the import. -/
theorem target_mem {i : Importing} {t : Token} (member : t ∈ i.target.tokens) : t ∈ i.tokens :=
  List.mem_cons_of_mem _ (List.mem_append_left _ member)

/-- The tokens of an import are its keyword, its target and the semicolon. -/
theorem tokens_node (i : Importing) :
    i.node.tokens = i.keyword.val :: i.target.tokens ++ [i.semicolon.val] :=
  tokens_of_tokens _ _

/-- In the node of an import nothing was skipped. -/
theorem hasError_node (i : Importing) : i.node.hasError = false :=
  hasError_of_tokens _ _

/-- The import's name is told by the tokens between the keyword and the semicolon.
They end with no dot, so that none is dropped.

Proof: all tokens of the target are kept when the others are left out, and the last of them is
an identifier or the string, so no dot at the end is dropped. -/
theorem importTarget_node (i : Importing) : i.node.importTarget = i.target.tokens := by
  have kept : i.target.tokens.filter (Node.isTargetKind ·.kind) = i.target.tokens := by
    apply List.filter_eq_self.mpr
    intro t member
    cases target : i.target with
    | dotted name =>
      rw [target] at member
      rcases name.tokens_kinds t member with same | same <;> rw [same] <;> rfl
    | quoted literal =>
      rw [target] at member
      rw [List.mem_singleton.mp member, literal.property]
      rfl
  have last : ∃ before final, i.target.tokens = before ++ [final] ∧ final.kind ≠ .punct .dot := by
    cases i.target with
    | dotted name =>
      obtain ⟨before, final, split, kind⟩ := name.exists_last
      exact ⟨before, final, split, by rw [kind]; exact nofun⟩
    | quoted literal =>
      exact ⟨[], literal.val, rfl, by rw [literal.property]; exact nofun⟩
  have keyword : Node.isTargetKind i.keyword.val.kind = false := by
    rw [i.keyword.property]
    rfl
  have semicolon : Node.isTargetKind i.semicolon.val.kind = false := by
    rw [i.semicolon.property]
    rfl
  obtain ⟨before, final, split, notDot⟩ := last
  have tokens : i.node.tokens.filter (Node.isTargetKind ·.kind) = before ++ [final] := by
    rw [tokens_node, List.filter_append, List.filter_cons_of_neg (by simp [keyword]), kept, split,
      List.filter_cons_of_neg (by simp [semicolon])]
    simp
  rw [Node.importTarget, tokens, split, List.reverse_append, List.reverse_singleton,
    List.singleton_append, List.dropWhile_cons_of_neg (by simpa using notDot)]
  simp

/-- The name that an import gives: a dotted one is joined, a quoted one decoded. -/
def text (i : Importing) : String :=
  match i.target with
  | .dotted name => name.text
  | .quoted literal => String.ofList (Literal.Quoted.decode literal.val.lexeme.toList)

/-- The name that is read off the node of an import is its target: the string without its
quotes, or the dotted name as it is spelled. The kind of the first token tells which it is. -/
theorem importName_text (i : Importing) : i.node.importName.text = i.text := by
  rw [Node.importName, importTarget_node, text]
  cases i.target with
  | dotted name =>
    have kind : name.first.val.kind ≠ .string := by
      rw [name.first.property]
      exact nofun
    simp only [Target.tokens, Dotted.tokens]
    rw [if_neg kind]
    rfl
  | quoted literal =>
    simp only [Target.tokens]
    rw [if_pos literal.property]

/-- An import is taken to be sound if the tokens that name its target are. -/
theorem importStatus_node (i : Importing) (sound : ∀ t ∈ i.target.tokens, t.fault = none) :
    i.node.importStatus = .unchecked := by
  have faultless : i.target.tokens.any (·.fault.isSome) = false := by
    apply List.any_eq_false.mpr
    intro t member
    rw [sound t member]
    decide
  rw [Node.importStatus, hasError_node, importTarget_node, faultless]
  rfl

/-- What is wrong with an import whose tokens are sound: a quoted name of blanks. -/
theorem importFindings_node (i : Importing) (sound : ∀ t ∈ i.target.tokens, t.fault = none) :
    i.node.importFindings =
      match i.target with
      | .dotted _ => []
      | .quoted literal =>
        if Text.isBlankText i.text then [⟨.emptyImportName, literal.val.span⟩] else [] := by
  rw [Node.importFindings, Node.findings_of_sound i.hasError_node, importTarget_node,
    importName_text]
  cases target : i.target with
  | dotted name =>
    have kind : name.first.val.kind ≠ .string := by
      rw [name.first.property]
      exact nofun
    simp [Target.tokens, Dotted.tokens, kind]
  | quoted literal =>
    have faultless : literal.val.fault = none := by
      apply sound
      rw [target]
      exact List.mem_singleton_self _
    simp [Target.tokens, literal.property, faultless]

end Importing

/-! ## Blocks -/

namespace Block

variable {word : Keyword} {Item : Type}

/-- The name of a block is one of its tokens. -/
theorem name_mem {itemTokens : Item → List Token} (b : Block word Item) :
    b.name.val ∈ b.tokens itemTokens := by
  simp [tokens]

/-- The tokens of an item are tokens of the block. -/
theorem mem_tokens {itemTokens : Item → List Token} {b : Block word Item} {item : Item} {t : Token}
    (member : item ∈ b.items) (inside : t ∈ itemTokens item) : t ∈ b.tokens itemTokens := by
  have among : t ∈ b.items.flatMap itemTokens := List.mem_flatMap.mpr ⟨item, member, inside⟩
  simp [tokens, among]

/-- Right below the node of a block stand the keyword, the name and the braces. The tokens of
the items are further down, so a look-up in the block does not come upon them. -/
theorem tokens_node (kind : NodeKind) (itemNode : Item → Node) (b : Block word Item) :
    (nodeOver kind (b.elements itemNode)).tokens
      = [b.keyword.val, b.name.val, b.opening.val, b.closing.val] := by
  have none_below : (b.items.map fun item => Element.node (itemNode item)).filterMap Element.token?
      = [] := by
    rw [List.filterMap_map]
    exact List.filterMap_eq_nil_iff.mpr fun _ _ => rfl
  show (b.elements itemNode).filterMap Element.token? = _
  rw [elements, List.filterMap_append]
  simp [Element.token?, none_below]

/-- The nodes right below a block are its items. -/
theorem nodes_node (kind : NodeKind) (itemNode : Item → Node) (b : Block word Item) :
    (nodeOver kind (b.elements itemNode)).nodes = b.items.map itemNode := by
  have items : (b.items.map fun item => Element.node (itemNode item)).filterMap Element.node?
      = b.items.map itemNode := by
    rw [List.filterMap_map]
    exact congrFun List.filterMap_eq_map' b.items
  show (b.elements itemNode).filterMap Element.node? = _
  rw [elements, List.filterMap_append, List.filterMap_cons_none rfl, List.filterMap_cons_none rfl,
    List.filterMap_cons_none rfl, items, List.filterMap_cons_none rfl, List.filterMap_nil,
    List.append_nil]

/-- The name that is read off the node of a block is the identifier behind its keyword. -/
theorem nameAfter_node (kind : NodeKind) (itemNode : Item → Node) (b : Block word Item) :
    (nodeOver kind (b.elements itemNode)).nameAfter word
      = ⟨b.name.val.lexeme, b.name.val.span⟩ := by
  have split : (nodeOver kind (b.elements itemNode)).tokens
      = [] ++ b.keyword.val :: b.name.val :: [b.opening.val, b.closing.val] :=
    b.tokens_node kind itemNode
  refine Node.nameAfter_of_split split ?_ b.keyword.property b.name.property
  intro t member
  exact absurd member List.not_mem_nil

/-- If the items are nodes of one kind, they are the nodes of that kind. -/
theorem nodesOf_node (kind itemKind : NodeKind) (itemNode : Item → Node) (b : Block word Item)
    (same : ∀ item, (itemNode item).kind = itemKind) :
    (nodeOver kind (b.elements itemNode)).nodesOf itemKind = b.items.map itemNode := by
  rw [Node.nodesOf, nodes_node]
  apply List.filter_eq_self.mpr
  intro n member
  obtain ⟨item, -, rfl⟩ := List.mem_map.mp member
  exact decide_eq_true (same item)

end Block

/-! ## Declarations -/

namespace Declaration

/-- The declaration that the node of a phrase denotes. -/
theorem toDeclaration?_node (phrase : Declaration) :
    phrase.node.toDeclaration? = some (match phrase with
      | .importing i => .importing i.node.toImport
      | .message b => .message ⟨b.name.val.lexeme, b.name.val.span,
          b.items.map fun f => f.node.toField, phrase.node.span⟩
      | .enum b => .enum ⟨b.name.val.lexeme, b.name.val.span,
          b.items.map fun v => v.node.toVariant, phrase.node.span⟩) := by
  cases phrase with
  | importing i => rfl
  | message b =>
    have fields := b.nodesOf_node .message .field Field.node fun _ => rfl
    have name := b.nameAfter_node .message Field.node
    show some (MessageSchema.Declaration.message (Node.toMessage _)) = _
    rw [Node.toMessage, node, fields, name, List.map_map]
    rfl
  | enum b =>
    have variants := b.nodesOf_node .enum .variant Variant.node fun _ => rfl
    have name := b.nameAfter_node .enum Variant.node
    show some (MessageSchema.Declaration.enum (Node.toEnum _)) = _
    rw [Node.toEnum, node, variants, name, List.map_map]
    rfl

/-- A declaration is as sound as its items. -/
theorem declarationFindings_node (phrase : Declaration) :
    phrase.node.declarationFindings = match phrase with
      | .importing i => i.node.importFindings
      | .message b => b.items.flatMap fun f => f.node.fieldFindings
      | .enum b => b.items.flatMap fun v => v.node.variantFindings := by
  cases phrase with
  | importing i => rfl
  | message b =>
    have fields := b.nodesOf_node .message .field Field.node fun _ => rfl
    show ((nodeOver .message (b.elements Field.node)).nodesOf .field).flatMap _ = _
    rw [fields, List.flatMap_map]
  | enum b =>
    have variants := b.nodesOf_node .enum .variant Variant.node fun _ => rfl
    show ((nodeOver .enum (b.elements Variant.node)).nodesOf .variant).flatMap _ = _
    rw [variants, List.flatMap_map]

end Declaration

end Phrase

end MessageSchema
