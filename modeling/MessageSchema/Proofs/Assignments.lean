import Mathlib.Data.List.Forall2
import MessageSchema.Proofs.Layout
import MessageSchema.Proofs.Numerals
import MessageSchema.Proofs.Productions
import MessageSchema.Proofs.Sorting

/-!
# The numbers of fields and variants

A tag or a value is written as a number behind an equals sign. It is read off a node
by looking for the first equals sign among the tokens right below the node and taking
the token that follows. What was skipped in between is not among these tokens, so the
look-up could go wrong in a node that was recovered. It does not: a field or variant
has at most one equals sign, and behind it stands a number or what was skipped in its
place, whatever the source is.

So the number that is read is the one that is written, and it counts exactly if it is
an integer literal within the bounds. A literal that is out of bounds or no integer is
reported once, at its place, unless its token is faulty or something was skipped right
below the node.
-/

namespace MessageSchema

open Literal.Number

/-! ## Integers within bounds -/

/-- A word gives back the number it was made from, if every number within the bounds fits. -/
theorem Literal.Number.map_integerWithin? {α : Type} {least bound : Int} {text : List Char}
    {word : Int → α} {number : α → Int}
    (fits : ∀ v, least ≤ v → v < bound → number (word v) = v) :
    ((integerWithin? least bound text).map word).map number = integerWithin? least bound text := by
  rw [Option.map_map]
  cases given : integerWithin? least bound text with
  | none => rfl
  | some v =>
    have within := (Option.filter_eq_some_iff.mp given).2
    rw [Bool.and_eq_true, decide_eq_true_eq, decide_eq_true_eq] at within
    exact congrArg some (fits v within.1 within.2)

/-- A text gives a tag exactly if it is an integer literal within the bounds of 32 bits
without a sign, and the tag stands for the number that the literal denotes. -/
theorem Node.tagOf?_eq_some_iff {lexeme : String} {v : Int} :
    (tagOf? lexeme).map (fun tag => Int.ofNat tag.toNat) = some v
      ↔ IntegerWithin 0 (2 ^ 32) lexeme.toList v := by
  have fits (v : Int) (lower : 0 ≤ v) (upper : v < Nat.pow 2 32) :
      Int.ofNat (UInt32.ofNat v.toNat).toNat = v := by
    have small : v.toNat < 2 ^ 32 := by
      rw [Nat.pow_eq] at upper
      omega
    rw [UInt32.toNat_ofNat', Nat.mod_eq_of_lt small]
    exact Int.toNat_of_nonneg lower
  have number : (tagOf? lexeme).map (fun tag => Int.ofNat tag.toNat)
      = integerWithin? 0 (Nat.pow 2 32) lexeme.toList := map_integerWithin? fits
  rw [number]
  exact integerWithin?_eq_some_iff (by decide)

/-- A text gives a value exactly if it is an integer literal within the bounds of 64 bits
with a sign, and the value stands for the number that the literal denotes. -/
theorem Node.valueOf?_eq_some_iff {lexeme : String} {v : Int} :
    (valueOf? lexeme).map Int64.toInt = some v
      ↔ IntegerWithin (-2 ^ 63) (2 ^ 63) lexeme.toList v := by
  have number : (valueOf? lexeme).map Int64.toInt
      = integerWithin? (-(Nat.pow 2 63)) (Nat.pow 2 63) lexeme.toList :=
    map_integerWithin? fun v => Int64.toInt_ofInt_of_le
  rw [number]
  exact integerWithin?_eq_some_iff (by decide)

/-! ## At most one equals sign -/

/-- The node has an equals sign right below it, and right behind that the number `t`. -/
def Node.Assigns (n : Node) (t : Token) : Prop :=
  ∃ before equals behind, n.children = before ++ .token equals :: .token t :: behind
    ∧ equals.kind = .punct .equals ∧ t.kind.isNumber = true

namespace Shape

/-- Children without an equals sign, and then the end of a statement. -/
def Assigning (children : List Element) : Prop :=
  ∃ before rest, children = before ++ rest
    ∧ (∀ e ∈ before, e.isToken (.punct .equals) = false) ∧ Ending rest

variable {children rest : List Element}

/-- An ending has at most one equals sign, at its front, with a number or what was skipped
behind it. -/
theorem Ending.assigning (ending : Ending rest) : Assigning rest :=
  ⟨[], rest, rfl, List.forall_mem_nil _, ending⟩

/-- A child in front that is no equals sign leaves the look-up as it is. -/
theorem Assigning.cons {e : Element} (other : e.isToken (.punct .equals) = false)
    (assigning : Assigning rest) : Assigning (e :: rest) := by
  obtain ⟨before, ending, rfl, absent, shape⟩ := assigning
  exact ⟨e :: before, ending, rfl, List.forall_mem_cons.mpr ⟨other, absent⟩, shape⟩

/-- A token in front that is of another kind than the equals sign leaves the look-up as it
is. -/
theorem Assigning.token {t : Token} {kind : TokenKind} (same : t.kind = kind)
    (other : kind ≠ .punct .equals) (assigning : Assigning rest) :
    Assigning (.token t :: rest) := by
  refine assigning.cons ?_
  simp [Element.isToken, Element.token?, same, other]

/-- Neither do several tokens in front disturb the look-up, none of them an equals sign. -/
theorem Assigning.tokens {tokens : List Token} (other : ∀ t ∈ tokens, t.kind ≠ .punct .equals)
    (assigning : Assigning rest) : Assigning (tokens.map .token ++ rest) := by
  induction tokens with
  | nil => exact assigning
  | cons t more ih =>
    obtain ⟨first, later⟩ := List.forall_mem_cons.mp other
    exact (ih later).token rfl first

/-- The children behind the name of a field hold one assignment at most: only their ending can
hold an equals sign. -/
theorem Detail.assigning (detail : Detail children) : Assigning children := by
  cases detail with
  | untyped ending => exact ending.assigning
  | typed mark kind ending => exact (ending.assigning.cons rfl).token mark (by decide)
  | broken mark error =>
    exact (Ending.plain (.skipped error)).assigning.token mark (by decide)

/-- The same from the keyword on, also where the name is missing and where everything was
skipped. -/
theorem Unmodified.assigning (unmodified : Unmodified children) : Assigning children := by
  cases unmodified with
  | named word identifier detail =>
    exact (detail.assigning.token identifier (by decide)).token word (by decide)
  | unnamed word detail => exact detail.assigning.token word (by decide)
  | broken error => exact (Ending.plain (.skipped error)).assigning

/-- The same for all children of a field, since a modifier is no equals sign. -/
theorem Field.assigning (field : Field children) : Assigning children := by
  obtain ⟨qualifies, unmodified⟩ := field
  refine unmodified.assigning.tokens ?_
  intro t member equals
  have modifier := qualifies t member
  rw [equals] at modifier
  exact Bool.noConfusion modifier

/-- The children of a variant hold one assignment at most, the one in its ending. -/
theorem Variant.assigning (variant : Variant children) : Assigning children := by
  obtain ⟨identifier, ending⟩ := variant
  exact ending.assigning.token identifier (by decide)

/-- What ends in a semicolon or in what was skipped, and no more, has no equals sign right below
it. -/
theorem Closed.noEquals (closed : Closed children) :
    ∀ e ∈ children, e.isToken (.punct .equals) = false := by
  cases closed with
  | semicolon mark => simp [Element.isToken, Element.token?, mark]
  | skipped error => simp [Element.isToken, Element.token?]

end Shape

namespace Node

variable {n : Node} {t : Token}

/-- Where there is no equals sign nothing is assigned. -/
theorem Assigns.exists_equals (assigns : n.Assigns t) :
    ∃ e ∈ n.children, e.isToken (.punct .equals) = true := by
  obtain ⟨before, equals, behind, split, mark, -⟩ := assigns
  refine ⟨.token equals, by simp [split], ?_⟩
  simpa [Element.isToken, Element.token?] using mark

/-- Where no child is an equals sign, none of the tokens among the children is one. -/
theorem tokens_of_noEquals {children : List Element}
    (absent : ∀ e ∈ children, e.isToken (.punct .equals) = false) :
    ∀ t ∈ children.filterMap Element.token?, t.kind ≠ .punct .equals := by
  intro t member
  obtain ⟨e, inside, found⟩ := List.mem_filterMap.mp member
  have other := absent e inside
  rw [Element.isToken, found] at other
  simpa using other

/-- The token behind the only equals sign, and the number that is assigned.

Proof: an equals sign elsewhere in the node is excluded, so any split at an equals sign is this
one. -/
theorem numberToken?_of_split {before rest : List Element} {equals : Token}
    (split : n.children = before ++ .token equals :: rest) (mark : equals.kind = .punct .equals)
    (first : ∀ e ∈ before, e.isToken (.punct .equals) = false)
    (only : ∀ e ∈ rest, e.isToken (.punct .equals) = false) :
    n.numberToken? = (rest.filterMap Element.token?).head?
      ∧ (n.Assigns t ↔ rest.head? = some (.token t) ∧ t.kind.isNumber = true) := by
  constructor
  · refine tokenAfter?_of_split ?_ (tokens_of_noEquals first) mark
    rw [tokens, split, List.filterMap_append]
    rfl
  · constructor
    · rintro ⟨ahead, other, behind, same, otherMark, isNumber⟩
      have isEquals : (Element.token other).isToken (.punct .equals) = true := by
        simpa [Element.isToken, Element.token?] using otherMark
      have notBefore : Element.token other ∉ before := fun member =>
        Bool.noConfusion ((first _ member).symm.trans isEquals)
      have notBehind : Element.token other ∉ rest := fun member =>
        Bool.noConfusion ((only _ member).symm.trans isEquals)
      obtain ⟨-, -, rfl⟩ :=
        (List.append_cons_inj_of_notMem notBefore notBehind).mp (split.symm.trans same)
      exact ⟨rfl, isNumber⟩
    · rintro ⟨next, isNumber⟩
      obtain ⟨behind, rfl⟩ := List.head?_eq_some_iff.mp next
      exact ⟨before, equals, behind, split, mark, isNumber⟩

/-- The look-up finds the number that is assigned, and nothing else.

Proof: by the shape of the children. Where there is no equals sign nothing is found and nothing
is assigned; where there is one, it is the first and the only one. -/
theorem numberToken?_eq_some_iff (shape : Shape.Assigning n.children) :
    n.numberToken? = some t ↔ n.Assigns t := by
  obtain ⟨before, ending, split, first, shape⟩ := shape
  cases shape with
  | plain closed =>
    have absent : ∀ e ∈ n.children, e.isToken (.punct .equals) = false := by
      rw [split]
      exact List.forall_mem_append.mpr ⟨first, closed.noEquals⟩
    have nothing : n.numberToken? = none := tokenAfter?_of_absent (tokens_of_noEquals absent)
    rw [nothing]
    constructor
    · intro found
      cases found
    · intro assigns
      obtain ⟨e, member, equals⟩ := assigns.exists_equals
      exact Bool.noConfusion ((absent e member).symm.trans equals)
  | @number equals literal closing mark isNumber closed =>
    have only : ∀ e ∈ Element.token literal :: closing, e.isToken (.punct .equals) = false := by
      refine List.forall_mem_cons.mpr ⟨?_, closed.noEquals⟩
      have other : literal.kind ≠ .punct .equals := by
        intro same
        rw [same] at isNumber
        exact Bool.noConfusion isNumber
      simpa [Element.isToken, Element.token?] using other
    obtain ⟨found, assigned⟩ := numberToken?_of_split (t := t) split mark first only
    rw [found, assigned]
    constructor
    · intro same
      cases same
      exact ⟨rfl, isNumber⟩
    · rintro ⟨same, -⟩
      cases same
      rfl
  | @broken equals skipped mark error =>
    have only : ∀ e ∈ [Element.node skipped], e.isToken (.punct .equals) = false := by
      simp [Element.isToken, Element.token?]
    obtain ⟨found, assigned⟩ := numberToken?_of_split (t := t) split mark first only
    rw [found, assigned]
    constructor
    · intro same
      cases same
    · rintro ⟨same, -⟩
      cases same

/-! ## Refused numbers -/

/-- The number `t` is assigned to a node and its token is sound, but it is no integer within
the bounds; and nothing was skipped right below the node. -/
structure Refuses (n : Node) (least bound : Int) (t : Token) : Prop where
  assigned : n.Assigns t
  faultless : t.fault = none
  useless : ∀ v, ¬ IntegerWithin least bound t.lexeme.toList v
  unbroken : ∀ m ∈ n.nodes, m.kind ≠ .error

/-- The finding about the number of a node, if there is one. -/
def refusal? (usable : String → Bool) (problem : String → Problem) (n : Node) : Option Diagnostic :=
  if n.hasError then none
  else (n.numberToken?.filter fun t => !usable t.lexeme && t.fault.isNone).map
    fun t => ⟨problem t.lexeme, t.span⟩

/-- What a field or a variant reports of its number is one refusal or nothing: the number is
judged at most once, and not at all in a node in which something was skipped. -/
theorem findings_numberFindings (n : Node) (usable : String → Bool) (problem : String → Problem) :
    n.findings (n.numberFindings usable problem) = (n.refusal? usable problem).toList := by
  rw [findings, refusal?]
  cases n.hasError with
  | true => rfl
  | false =>
    rw [numberFindings]
    cases n.numberToken? with
    | none => rfl
    | some t =>
      rw [Option.filter_some]
      by_cases wrong : (!usable t.lexeme && t.fault.isNone) = true
      · simp only [wrong, if_true]
        rfl
      · simp only [wrong]
        rfl

/-- A number is refused exactly if it has no value within the bounds, its token is sound, and
nothing was skipped in the node. By the shape of the node the token that is judged is the number
behind the equals sign. -/
theorem refusal?_eq_some_iff {usable : String → Bool} {problem : String → Problem}
    {least bound : Int} {d : Diagnostic} (shape : Shape.Assigning n.children)
    (judges : ∀ lexeme, usable lexeme = true ↔ ∃ v, IntegerWithin least bound lexeme.toList v) :
    n.refusal? usable problem = some d
      ↔ ∃ t, n.Refuses least bound t ∧ d = ⟨problem t.lexeme, t.span⟩ := by
  have unbroken : n.hasError = false ↔ ∀ m ∈ n.nodes, m.kind ≠ .error := by
    simp [hasError]
  have useless (lexeme : String) :
      (!usable lexeme) = true ↔ ∀ v, ¬ IntegerWithin least bound lexeme.toList v := by
    rw [Bool.not_eq_true', ← Bool.not_eq_true, judges, not_exists]
  rw [refusal?]
  cases broken : n.hasError with
  | true =>
    constructor
    · intro found
      cases found
    · rintro ⟨t, refused, -⟩
      exact Bool.noConfusion (broken.symm.trans (unbroken.mpr refused.unbroken))
  | false =>
    have sound := unbroken.mp broken
    rw [if_neg (by decide), Option.map_eq_some_iff]
    apply exists_congr
    intro t
    rw [Option.filter_eq_some_iff, numberToken?_eq_some_iff shape, Bool.and_eq_true, useless,
      Option.isNone_iff_eq_none]
    constructor
    · rintro ⟨⟨assigned, nothing, faultless⟩, rfl⟩
      exact ⟨⟨assigned, faultless, nothing, sound⟩, rfl⟩
    · rintro ⟨refused, rfl⟩
      exact ⟨⟨refused.assigned, refused.useless, refused.faultless⟩, rfl⟩

end Node

/-! ## All fields and variants -/

namespace Node

/-- The nodes of one kind right below the nodes of another kind right below a node. -/
def itemsOf (n : Node) (outer inner : NodeKind) : List Node :=
  (n.nodesOf outer).flatMap (·.nodesOf inner)

/-- The items of the blocks of a tree are nodes of the tree, of the kind that was asked for. -/
theorem mem_itemsOf {n m : Node} {outer inner : NodeKind} (member : m ∈ n.itemsOf outer inner) :
    m ∈ n.preorder ∧ m.kind = inner := by
  obtain ⟨block, among, item⟩ := List.mem_flatMap.mp member
  have outside := (List.mem_filter.mp among).1
  obtain ⟨inside, kind⟩ := List.mem_filter.mp item
  refine ⟨?_, of_decide_eq_true kind⟩
  exact preorder_of_mem_nodes outside m (preorder_of_mem_nodes inside m m.self_mem_preorder)

/-- A rule built these nodes, so they have the shape of their kind. -/
theorem itemsOf_shape {source : String} {n : Node} {outer inner : NodeKind}
    (member : n ∈ (parseSource source).tree.itemsOf outer inner) (nested : inner ≠ .document)
    (kept : inner ≠ .error) : Shape.Of inner n.children := by
  obtain ⟨below, rfl⟩ := mem_itemsOf member
  exact (parse_gathered (tokenize source) n below nested).inShape fun error => absurd error kept

/-- What all nodes give together, if only those of one kind give anything. -/
theorem flatMap_nodesOf {α : Type} {nodes : List Node} {kind : NodeKind} {f g : Node → List α}
    (given : ∀ n : Node, f n = if n.kind = kind then g n else []) :
    nodes.flatMap f = (nodes.filter (·.kind = kind)).flatMap g := by
  induction nodes with
  | nil => rfl
  | cons n rest ih =>
    rw [List.flatMap_cons, ih, given n]
    by_cases chosen : n.kind = kind
    · rw [if_pos chosen, List.filter_cons_of_pos (by simp [chosen]), List.flatMap_cons]
    · rw [if_neg chosen, List.filter_cons_of_neg (by simp [chosen]), List.nil_append]

/-- What the declarations of one kind hold is read from the nodes of this kind, one part after
the other: `content?` picks the declarations, `make` reads one off its node, `parts` is what it
holds, and `read` reads a part off its node. -/
theorem flatMap_toDocument {α β : Type} {outer inner : NodeKind} {content? : Declaration → Option α}
    {make : Node → α} {parts : α → List β} {read : Node → β}
    (denoted : ∀ n : Node,
      n.toDeclaration?.bind content? = if n.kind = outer then some (make n) else none)
    (held : ∀ n : Node, parts (make n) = (n.nodesOf inner).map read)
    (tree : Node) (name : String) :
    ((tree.toDocument name).declarations.filterMap content?).flatMap parts
      = (tree.itemsOf outer inner).map read := by
  rw [toDocument, List.filterMap_filterMap, List.filterMap_eq_flatMap_toList, List.flatMap_assoc,
    itemsOf, List.map_flatMap]
  apply flatMap_nodesOf
  intro n
  rw [denoted n]
  split
  · rw [Option.toList_some, List.flatMap_singleton, held n]
  · rfl

/-- A node declares a message if it is one for a message. -/
theorem message?_toDeclaration? (n : Node) :
    n.toDeclaration?.bind Declaration.message?
      = if n.kind = .message then some n.toMessage else none := by
  rw [toDeclaration?]
  cases n.kind <;> rfl

/-- A node declares an enum if it is one for an enum. -/
theorem enum?_toDeclaration? (n : Node) :
    n.toDeclaration?.bind Declaration.enum?
      = if n.kind = .enum then some n.toEnum else none := by
  rw [toDeclaration?]
  cases n.kind <;> rfl

end Node

/-- Whether a problem is a tag that cannot be used. -/
def Problem.isInvalidTag : Problem → Bool
  | .invalidTag _ => true
  | _ => false

/-- Whether a problem is a value that cannot be used. -/
def Problem.isInvalidEnumValue : Problem → Bool
  | .invalidEnumValue _ => true
  | _ => false

/-- Of the problems of declarations, `p` chooses the tags that cannot be used if `tags`, the
values that cannot be used if `values`, and no others. -/
structure Problem.ChoosesNumbers (p : Problem → Bool) (tags values : Bool) : Prop where
  emptyImportName : p .emptyImportName = false
  conflictingModifiers : ∀ field modifier, p (.conflictingModifiers field modifier) = false
  missingType : ∀ field, p (.missingType field) = false
  missingVariantValue : ∀ variant, p (.missingVariantValue variant) = false
  invalidTag : ∀ lexeme, p (.invalidTag lexeme) = tags
  invalidEnumValue : ∀ lexeme, p (.invalidEnumValue lexeme) = values

/-- Unusable tags are chosen by their kind of problem. -/
theorem Problem.choosesNumbers_isInvalidTag : ChoosesNumbers isInvalidTag true false :=
  ⟨rfl, fun _ _ => rfl, fun _ => rfl, fun _ => rfl, fun _ => rfl, fun _ => rfl⟩

/-- Unusable values are chosen by their kind of problem. -/
theorem Problem.choosesNumbers_isInvalidEnumValue : ChoosesNumbers isInvalidEnumValue false true :=
  ⟨rfl, fun _ _ => rfl, fun _ => rfl, fun _ => rfl, fun _ => rfl, fun _ => rfl⟩

namespace Node

/-- It does not matter whether findings are selected before or after they are withheld from a
broken node. -/
theorem filter_findings (n : Node) (p : Diagnostic → Bool) (found : List Diagnostic) :
    (n.findings found).filter p = n.findings (found.filter p) := by
  rw [findings, findings]
  split <;> rfl

/-- All findings about a number are of one kind. -/
theorem problem_of_numberFindings {n : Node} {usable : String → Bool} {problem : String → Problem}
    {d : Diagnostic} (member : d ∈ n.numberFindings usable problem) :
    ∃ lexeme, d.problem = problem lexeme := by
  rw [numberFindings] at member
  split at member
  · split at member
    · exact ⟨_, congrArg _ (List.mem_singleton.mp member)⟩
    · exact absurd member List.not_mem_nil
  · exact absurd member List.not_mem_nil

/-- All findings of one number name the same problem, so a selection by the problem takes all of
them or none. -/
theorem filter_numberFindings {n : Node} {usable : String → Bool} {problem : String → Problem}
    {p : Problem → Bool} {chosen : Bool} (all : ∀ lexeme, p (problem lexeme) = chosen) :
    (n.numberFindings usable problem).filter (p ·.problem)
      = bif chosen then n.numberFindings usable problem else [] := by
  have same : ∀ d ∈ n.numberFindings usable problem, p d.problem = chosen := by
    intro d member
    obtain ⟨lexeme, named⟩ := problem_of_numberFindings member
    exact named ▸ all lexeme
  cases chosen with
  | true => exact List.filter_eq_self.mpr same
  | false => exact List.filter_eq_nil_iff.mpr fun d member => by simp [same d member]

/-- The findings about an import are of one kind. -/
theorem filter_importFindings {n : Node} {p : Problem → Bool} (other : p .emptyImportName = false) :
    n.importFindings.filter (p ·.problem) = [] := by
  rw [importFindings, filter_findings, findings]
  split
  · rfl
  · split
    · rfl
    · split <;> simp [other]

/-- The findings about a field that are chosen: its tag if tags are, and nothing else. -/
theorem filter_fieldFindings {p : Problem → Bool} {tags values : Bool}
    (chooses : Problem.ChoosesNumbers p tags values) (n : Node) :
    n.fieldFindings.filter (p ·.problem)
      = bif tags then (n.refusal? (fun lexeme => (tagOf? lexeme).isSome) .invalidTag).toList
        else [] := by
  have conflicts (found : List Token) : (found.map fun t =>
      (⟨.conflictingModifiers (n.nameAfter .field).text t.lexeme, t.span⟩ : Diagnostic)).filter
        (p ·.problem) = [] := by
    simp [List.filter_eq_nil_iff, chooses.conflictingModifiers]
  have untyped : (if (n.firstNode? .typeRef).isNone then
      [(⟨.missingType (n.nameAfter .field).text, (n.nameAfter .field).span⟩ : Diagnostic)]
        else []).filter (p ·.problem) = [] := by
    split <;> simp [chooses.missingType]
  rw [← findings_numberFindings, fieldFindings, filter_findings, List.filter_append,
    List.filter_append, conflicts, untyped, filter_numberFindings chooses.invalidTag]
  cases tags with
  | true => rfl
  | false => exact ite_self []

/-- The findings about a variant that are chosen: its value if values are, and nothing else. -/
theorem filter_variantFindings {p : Problem → Bool} {tags values : Bool}
    (chooses : Problem.ChoosesNumbers p tags values) (n : Node) :
    n.variantFindings.filter (p ·.problem)
      = bif values then
          (n.refusal? (fun lexeme => (valueOf? lexeme).isSome) .invalidEnumValue).toList
        else [] := by
  have same : (if n.numberToken?.isNone then
      [(⟨.missingVariantValue n.variantName.text, n.variantName.span⟩ : Diagnostic)]
        else n.numberFindings (fun lexeme => (valueOf? lexeme).isSome) .invalidEnumValue).filter
          (p ·.problem)
      = bif values then n.numberFindings (fun lexeme => (valueOf? lexeme).isSome) .invalidEnumValue
        else [] := by
    split
    · next nothing =>
      rw [numberFindings, Option.isNone_iff_eq_none.mp nothing]
      simp [chooses.missingVariantValue]
    · exact filter_numberFindings chooses.invalidEnumValue
  rw [← findings_numberFindings, variantFindings, filter_findings, same]
  cases values with
  | true => rfl
  | false => exact ite_self []

/-- The findings about a declaration that are chosen are refusals of its own numbers.

Proof: by the kind of the node. Findings about an import are not among the chosen ones, and
those about the items of a block are chosen item by item. -/
theorem filter_declarationFindings {p : Problem → Bool} {tags values : Bool}
    (chooses : Problem.ChoosesNumbers p tags values) (n : Node) :
    n.declarationFindings.filter (p ·.problem)
      = match n.kind with
        | .message => bif tags then (n.nodesOf .field).filterMap
            (refusal? (fun lexeme => (tagOf? lexeme).isSome) .invalidTag) else []
        | .enum => bif values then (n.nodesOf .variant).filterMap
            (refusal? (fun lexeme => (valueOf? lexeme).isSome) .invalidEnumValue) else []
        | _ => [] := by
  rw [declarationFindings]
  split
  · next kind =>
    rw [kind]
    exact filter_importFindings chooses.emptyImportName
  · next kind =>
    rw [kind]
    simp only [List.filter_flatMap, filter_fieldFindings chooses,
      List.filterMap_eq_flatMap_toList]
    cases tags <;> simp
  · next kind =>
    rw [kind]
    simp only [List.filter_flatMap, filter_variantFindings chooses,
      List.filterMap_eq_flatMap_toList]
    cases values <;> simp
  · next notImport notMessage notEnum =>
    split
    · next kind => exact absurd kind notMessage
    · next kind => exact absurd kind notEnum
    · rfl

/-- If only declarations of one kind have findings that are chosen, and these are the refusals
of their numbers, then the whole tree has the refusals of all these numbers, in the order of
the source. -/
theorem filter_documentFindings {p : Problem → Bool} {outer inner : NodeKind}
    {usable : String → Bool} {problem : String → Problem}
    (chosen : ∀ n : Node, n.declarationFindings.filter (p ·.problem)
      = if n.kind = outer then (n.nodesOf inner).filterMap (refusal? usable problem) else [])
    (tree : Node) :
    tree.documentFindings.filter (p ·.problem)
      = (tree.itemsOf outer inner).filterMap (refusal? usable problem) := by
  rw [documentFindings, List.filter_flatMap, itemsOf, List.filterMap_flatMap]
  exact flatMap_nodesOf chosen

end Node

/-! ## The order of the refusals -/

/-- Stretches inside spans in order are in order. -/
theorem InOrder.flatMap {low high : Nat} {nodes : List Node} {inner : Node → List Span}
    (ordered : InOrder low high (nodes.map Node.span))
    (inside : ∀ n ∈ nodes, InOrder n.span.start n.span.stop (inner n)) :
    InOrder low high (nodes.flatMap inner) := by
  induction nodes generalizing low with
  | nil => exact ordered
  | cons n rest ih =>
    obtain ⟨begins, -, later⟩ := ordered
    obtain ⟨first, others⟩ := List.forall_mem_cons.mp inside
    exact (first.lower begins).append (ih later others)

namespace Node

/-- The items of all blocks stand one behind the other in the source, since the blocks do and
the items of each block do. -/
theorem Sorted.itemsOf_inOrder {tree : Node} (sorted : tree.Sorted) (outer inner : NodeKind) :
    InOrder tree.span.start tree.span.stop ((tree.itemsOf outer inner).map Node.span) := by
  rw [itemsOf, List.map_flatMap]
  apply InOrder.flatMap (nodesOf_inOrder sorted.self outer)
  intro n member
  exact nodesOf_inOrder (sorted.below (List.mem_filter.mp member).1).self inner

/-- A refusal stands within its node. -/
theorem InPlace.refusal_bounds {n : Node} (inPlace : n.InPlace) {usable : String → Bool}
    {problem : String → Problem} {d : Diagnostic} (given : n.refusal? usable problem = some d) :
    n.span.start ≤ d.span.start ∧ d.span.start ≤ d.span.stop ∧ d.span.stop ≤ n.span.stop := by
  rw [refusal?, Option.ite_none_left_eq_some] at given
  obtain ⟨t, chosen, rfl⟩ := Option.map_eq_some_iff.mp given.2
  have found : n.numberToken? = some t := (Option.filter_eq_some_iff.mp chosen).1
  have child := mem_children_of_mem_tokens (tokenAfter?_mem found)
  exact InOrder.bounds inPlace (List.mem_map_of_mem child)

/-- Refusals are found in the order of their places, so that sorting leaves them alone. -/
theorem Sorted.refusals_sorted {tree : Node} (sorted : tree.Sorted) (outer inner : NodeKind)
    (usable : String → Bool) (problem : String → Problem) :
    Diagnostic.sorted ((tree.itemsOf outer inner).filterMap (refusal? usable problem))
      = (tree.itemsOf outer inner).filterMap (refusal? usable problem) := by
  apply Diagnostic.sorted_eq_self
  have apart := List.pairwise_map.mp (sorted.itemsOf_inOrder outer inner).pairwise
  apply List.Pairwise.filterMap _ _ (apart.imp_of_mem (S := fun n m =>
    n.InPlace ∧ m.InPlace ∧ n.span.stop ≤ m.span.start) _)
  · rintro n m ⟨nInPlace, mInPlace, before⟩ d given e later
    have first := nInPlace.refusal_bounds given
    have second := mInPlace.refusal_bounds later
    simp only [Diagnostic.placedBefore, Bool.or_eq_true, Bool.and_eq_true, decide_eq_true_eq,
      beq_iff_eq]
    omega
  · intro n m inside among before
    exact ⟨sorted.inPlace n (mem_itemsOf inside).1, sorted.inPlace m (mem_itemsOf among).1, before⟩

end Node

/-- The reports about the numbers of nodes: one for each node whose number is refused, at the
number and with its text, in the order of the nodes, and none for the others. -/
inductive ReportsRefused (least bound : Int) (problem : String → Problem) :
    List Node → List Diagnostic → Prop
  | none_left : ReportsRefused least bound problem [] []
  | refused {n : Node} {t : Token} {nodes : List Node} {reports : List Diagnostic}
      (refuses : n.Refuses least bound t)
      (later : ReportsRefused least bound problem nodes reports) :
      ReportsRefused least bound problem (n :: nodes) (⟨problem t.lexeme, t.span⟩ :: reports)
  | passed {n : Node} {nodes : List Node} {reports : List Diagnostic}
      (accepts : ∀ t, ¬ n.Refuses least bound t)
      (later : ReportsRefused least bound problem nodes reports) :
      ReportsRefused least bound problem (n :: nodes) reports

/-- Of nodes that each refuse one number at most, the refused numbers are reported once each and
in order. By induction on the nodes, with the case whether the first one refuses its number. -/
theorem reportsRefused_filterMap {nodes : List Node} {least bound : Int} {usable : String → Bool}
    (problem : String → Problem) (shapes : ∀ n ∈ nodes, Shape.Assigning n.children)
    (judges : ∀ lexeme, usable lexeme = true ↔ ∃ v, IntegerWithin least bound lexeme.toList v) :
    ReportsRefused least bound problem nodes (nodes.filterMap (Node.refusal? usable problem)) := by
  induction nodes with
  | nil => exact .none_left
  | cons n rest ih =>
    obtain ⟨shape, others⟩ := List.forall_mem_cons.mp shapes
    have told {d : Diagnostic} : n.refusal? usable problem = some d
        ↔ ∃ t, n.Refuses least bound t ∧ d = ⟨problem t.lexeme, t.span⟩ :=
      Node.refusal?_eq_some_iff shape judges
    cases given : n.refusal? usable problem with
    | none =>
      rw [List.filterMap_cons_none given]
      refine .passed (fun t refuses => ?_) (ih others)
      exact nomatch given.symm.trans (told.mpr ⟨t, refuses, rfl⟩)
    | some d =>
      obtain ⟨t, refuses, rfl⟩ := told.mp given
      rw [List.filterMap_cons_some given]
      exact .refused refuses (ih others)

/-- The diagnostics of a tree that are about the numbers of one kind of items report the refused
ones, once each and in order. The findings are in this order before they are sorted. -/
theorem Node.Sorted.reportsRefused {tree : Node} (sorted : tree.Sorted) {p : Problem → Bool}
    {outer inner : NodeKind} {usable : String → Bool} {problem : String → Problem}
    {least bound : Int}
    (chosen : ∀ n : Node, n.declarationFindings.filter (p ·.problem)
      = if n.kind = outer then (n.nodesOf inner).filterMap (refusal? usable problem) else [])
    (shapes : ∀ n ∈ tree.itemsOf outer inner, Shape.Assigning n.children)
    (judges : ∀ lexeme, usable lexeme = true ↔ ∃ v, IntegerWithin least bound lexeme.toList v) :
    ReportsRefused least bound problem (tree.itemsOf outer inner)
      (tree.documentDiagnostics.filter (p ·.problem)) := by
  rw [documentDiagnostics, Diagnostic.filter_sorted, filter_documentFindings chosen,
    sorted.refusals_sorted]
  exact reportsRefused_filterMap problem shapes judges

/-- Numbers are never misread. The fields and variants of the document of a source are read from
the nodes of its tree, one by one. A field has the tag `v` exactly if its node has an equals sign
and behind it an integer literal that denotes `v`, and `v` fits into 32 bits without a sign; a
variant has the value `v` in the same way, within 64 bits with a sign. A number is reported as no
tag or no value, once and at its place, exactly if its token has no fault but gives no value, and
nothing was skipped right below the node.

Proof: by its shape a field or a variant has one equals sign at most, and behind it a number or
what was skipped. So the look-up finds the number that was written. For the reports, the
findings of the tree are filtered down to those about numbers, node by node. -/
theorem numbers_never_misread (source name : String) :
    let tree := (parseSource source).tree
    let document := tree.toDocument name
    List.Forall₂
        (fun n f => ∀ v : Int, f.tag.map (fun tag => Int.ofNat tag.toNat) = some v
          ↔ ∃ t, n.Assigns t ∧ IntegerWithin 0 (2 ^ 32) t.lexeme.toList v)
        (tree.itemsOf .message .field) (document.messages.flatMap (·.fields))
      ∧ List.Forall₂
        (fun n w => ∀ v : Int, w.value.map Int64.toInt = some v
          ↔ ∃ t, n.Assigns t ∧ IntegerWithin (-2 ^ 63) (2 ^ 63) t.lexeme.toList v)
        (tree.itemsOf .enum .variant) (document.enums.flatMap (·.variants))
      ∧ ReportsRefused 0 (2 ^ 32) .invalidTag (tree.itemsOf .message .field)
        (tree.documentDiagnostics.filter (·.problem.isInvalidTag))
      ∧ ReportsRefused (-2 ^ 63) (2 ^ 63) .invalidEnumValue (tree.itemsOf .enum .variant)
        (tree.documentDiagnostics.filter (·.problem.isInvalidEnumValue)) := by
  intro tree document
  have sorted : tree.Sorted := parseSource_sorted source
  have fields : ∀ n ∈ tree.itemsOf .message .field, Shape.Assigning n.children := by
    intro n member
    have shape : Shape.Field n.children := Node.itemsOf_shape member (by decide) (by decide)
    exact shape.assigning
  have variants : ∀ n ∈ tree.itemsOf .enum .variant, Shape.Assigning n.children := by
    intro n member
    have shape : Shape.Variant n.children := Node.itemsOf_shape member (by decide) (by decide)
    exact shape.assigning
  have tagsChosen (n : Node) : n.declarationFindings.filter (·.problem.isInvalidTag)
      = if n.kind = .message then (n.nodesOf .field).filterMap
          (Node.refusal? (fun lexeme => (Node.tagOf? lexeme).isSome) .invalidTag) else [] := by
    rw [Node.filter_declarationFindings Problem.choosesNumbers_isInvalidTag]
    cases n.kind <;> rfl
  have valuesChosen (n : Node) : n.declarationFindings.filter (·.problem.isInvalidEnumValue)
      = if n.kind = .enum then (n.nodesOf .variant).filterMap
          (Node.refusal? (fun lexeme => (Node.valueOf? lexeme).isSome) .invalidEnumValue)
        else [] := by
    rw [Node.filter_declarationFindings Problem.choosesNumbers_isInvalidEnumValue]
    cases n.kind <;> rfl
  refine ⟨?_, ?_, ?_, ?_⟩
  · have read : document.messages.flatMap (·.fields)
        = (tree.itemsOf .message .field).map Node.toField :=
      Node.flatMap_toDocument Node.message?_toDeclaration? (fun _ => rfl) tree name
    rw [read, List.forall₂_map_right_iff, List.forall₂_same]
    intro n member v
    simp only [Node.toField, Option.map_bind, Option.bind_eq_some_iff, Function.comp_apply,
      Node.numberToken?_eq_some_iff (fields n member), Node.tagOf?_eq_some_iff]
  · have read : document.enums.flatMap (·.variants)
        = (tree.itemsOf .enum .variant).map Node.toVariant :=
      Node.flatMap_toDocument Node.enum?_toDeclaration? (fun _ => rfl) tree name
    rw [read, List.forall₂_map_right_iff, List.forall₂_same]
    intro n member v
    simp only [Node.toVariant, Option.map_bind, Option.bind_eq_some_iff, Function.comp_apply,
      Node.numberToken?_eq_some_iff (variants n member), Node.valueOf?_eq_some_iff]
  · refine sorted.reportsRefused tagsChosen fields fun lexeme => ?_
    simp only [← Node.tagOf?_eq_some_iff, ← Option.isSome_iff_exists, Option.isSome_map]
  · refine sorted.reportsRefused valuesChosen variants fun lexeme => ?_
    simp only [← Node.valueOf?_eq_some_iff, ← Option.isSome_iff_exists, Option.isSome_map]

end MessageSchema
