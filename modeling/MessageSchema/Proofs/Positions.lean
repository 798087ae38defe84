import MessageSchema.Proofs.Findings
import MessageSchema.Proofs.Places

/-!
# Every recorded place is real

A place in a tree, a document or a finding is never made up: it is the place of a
token, the start of such a place, or the smallest span over several of them, and
for a missing name it may be the point behind a keyword. So whatever is true of
the places of the tokens, and is kept when places are made from others, is true of
all places. This is shown for any such property, along the run that gathers the
tree and then along the look-ups that read a document off it. Resolution and the
checks record no places of their own.

The places of the tokens of a source are real, and being real is kept.
-/

namespace MessageSchema

/-- A property of spans that is kept where spans are made from others. -/
structure Span.Kept (P : Span → Prop) : Prop where
  emptyAtStart : ∀ {s : Span}, P s → P s.emptyAtStart
  union : ∀ {s t : Span}, P s → P t → P (s.union t)

/-! ## Trees -/

/-- A token with the property, and a keyword with the property behind it too. -/
structure Token.Placed (P : Span → Prop) (t : Token) : Prop where
  span : P t.span
  behind : ∀ word, t.kind = .keyword word → P t.pointAfter

/-- A child with the property. -/
inductive Element.Placed (P : Span → Prop) : Element → Prop
  | token {t : Token} (placed : t.Placed P) : Placed P (.token t)
  | node {n : Node} (span : P n.span) : Placed P (.node n)

/-- A node with the property, as its children. -/
structure Node.Placed (P : Span → Prop) (n : Node) : Prop where
  span : P n.span
  children : ∀ e ∈ n.children, e.Placed P

variable {P : Span → Prop}

/-- A child with the property has it at its own place. -/
theorem Element.Placed.span {e : Element} (placed : e.Placed P) : P e.span := by
  cases placed with
  | token placed => exact placed.span
  | node span => exact span

/-- A union of several spans has the property if all of them have it. -/
theorem Span.Kept.foldl_union (kept : Span.Kept P) {s : Span} {others : List Span} (first : P s)
    (rest : ∀ t ∈ others, P t) : P (others.foldl Span.union s) := by
  induction others generalizing s with
  | nil => exact first
  | cons t more ih =>
    rw [List.foldl_cons]
    apply ih
    · exact kept.union first (rest t List.mem_cons_self)
    · exact fun u member => rest u (List.mem_cons_of_mem t member)

/-- A node has the property if its children have it, as does the place it gets when it has
none. -/
theorem Span.Kept.covering (kept : Span.Kept P) (kind : NodeKind) {children : List Element}
    {fallback : Span} (placed : ∀ e ∈ children, e.Placed P) (missing : P fallback) :
    (Node.covering kind children fallback).Placed P := by
  refine ⟨?_, placed⟩
  cases children with
  | nil => exact missing
  | cons first rest =>
    show P ((rest.map Element.span).foldl Span.union first.span)
    apply kept.foldl_union (placed first List.mem_cons_self).span
    intro span member
    obtain ⟨e, among, rfl⟩ := List.mem_map.mp member
    exact (placed e (List.mem_cons_of_mem first among)).span

namespace ParseState

/-- The tokens ahead, the children gathered and the nodes below them have the
property. -/
structure Placed (P : Span → Prop) (s : ParseState) : Prop where
  ahead : ∀ t ∈ s.pending ++ [s.last], t.Placed P
  gathered : ∀ e ∈ s.children, e.Placed P
  below : ∀ n ∈ Element.preorderOf s.children, n.Placed P

variable {s after : ParseState}

/-- The place that a reader stands at has the property. -/
theorem Placed.here (placed : s.Placed P) (kept : Span.Kept P) : P s.here :=
  kept.emptyAtStart (placed.ahead _ (Run.current_mem s)).span

/-- Tokens ahead that were ahead before, and one more child.

Proof: what is ahead was ahead before, and what is gathered is old or the new child. -/
theorem Placed.add (placed : s.Placed P) {child : Element}
    (fewer : ∀ t ∈ after.pending, t ∈ s.pending) (last : after.last = s.last)
    (children : after.children = s.children ++ [child]) (new : child.Placed P)
    (nodes : ∀ n ∈ child.preorder, n.Placed P) : after.Placed P := by
  constructor
  case ahead =>
    intro t member
    apply placed.ahead
    rw [last] at member
    rcases List.mem_append.mp member with pending | atEnd
    · exact List.mem_append_left _ (fewer t pending)
    · exact List.mem_append_right _ atEnd
  case gathered =>
    intro e member
    rw [children, List.mem_append, List.mem_singleton] at member
    rcases member with old | rfl
    · exact placed.gathered e old
    · exact new
  case below =>
    intro n member
    rw [children, Element.preorderOf_concat, List.mem_append] at member
    exact member.elim (placed.below n) (nodes n)

/-- One more `error` node over tokens that were ahead. -/
theorem Placed.add_error (placed : s.Placed P) (kept : Span.Kept P) {skipped : List Token}
    (ahead : ∀ t ∈ skipped, t ∈ s.pending) (fewer : ∀ t ∈ after.pending, t ∈ s.pending)
    (last : after.last = s.last)
    (children : after.children
      = s.children ++ [.node (Node.covering .error (skipped.map .token) s.here)]) :
    after.Placed P := by
  have error : (Node.covering .error (skipped.map .token) s.here).Placed P := by
    apply kept.covering
    · intro e member
      obtain ⟨t, among, rfl⟩ := List.mem_map.mp member
      exact .token (placed.ahead t (List.mem_append_left _ (ahead t among)))
    · exact placed.here kept
  refine placed.add fewer last children (.node error.span) ?_
  intro n member
  rw [Element.preorder_covering, Element.preorderOf_tokens, List.mem_singleton] at member
  exact member ▸ error

/-- Nothing changes if only a report is made. -/
theorem Placed.report (placed : s.Placed P) (problem : Problem) (span : Span) :
    (s.report problem span).Placed P := by
  unfold ParseState.report
  split
  · exact placed
  · exact ⟨placed.ahead, placed.gathered, placed.below⟩

end ParseState

/-- Every step makes places from places with the property.

Proof: by induction on the run. What is taken or skipped had the property as a token ahead, and
the place of a node is the union of its children, or the place ahead if it has none. -/
theorem Run.placed {s after : ParseState} (kept : Span.Kept P) (run : Run s after)
    (before : s.Placed P) : after.Placed P := by
  induction run with
  | done s => exact before
  | take s =>
    unfold ParseState.take
    split
    · exact before
    · next t rest ahead =>
      have taken : t.Placed P := before.ahead t (by simp [ahead])
      refine before.add ?_ rfl rfl (.token taken) nofun
      intro u member
      rw [ahead]
      exact List.mem_cons_of_mem t member
  | unexpected s expected => exact before.report _ _
  | missing s what => exact before.report _ _
  | recover stops s =>
    have split := ParseState.skipTo_append stops s.pending
    have skipped : ∀ t ∈ (skipTo stops s.pending).1, t ∈ s.pending := by
      intro t member
      rw [← split]
      exact List.mem_append_left _ member
    refine before.add_error kept skipped ?_ rfl rfl
    intro t member
    rw [← split]
    exact List.mem_append_right _ member
  | mark s =>
    have skipped : ∀ t ∈ ([] : List Token), t ∈ s.pending := by simp
    exact before.add_error kept skipped (fun t member => member) rfl rfl
  | @node kind rule s builds below ih =>
    have inside := ih ⟨before.ahead, nofun, nofun⟩
    have node := kept.covering kind inside.gathered (before.here kept)
    constructor
    case ahead => exact inside.ahead
    case gathered =>
      intro e member
      rw [ParseState.node, List.mem_append, List.mem_singleton] at member
      rcases member with old | rfl
      · exact before.gathered e old
      · exact .node node.span
    case below =>
      intro n member
      rw [ParseState.node, Element.preorderOf_concat, Element.preorder_covering, List.mem_append,
        List.mem_cons] at member
      rcases member with old | rfl | deeper
      · exact before.below n old
      · exact node
      · exact inside.below n deeper
  | trans _ _ first second => exact second (first before)

/-- The nodes of a tree have the property if the tokens ahead and the root have it. -/
theorem parse_placed (kept : Span.Kept P) {tokens : List Token}
    (ahead : ∀ t ∈ significant tokens ++ [endToken tokens], t.Placed P)
    (whole : P (parse tokens).tree.span) : ∀ n ∈ (parse tokens).tree.preorder, n.Placed P := by
  have run := Rule.declarations_run (.start tokens)
  have placed := run.placed kept ⟨ahead, nofun, nofun⟩
  intro n member
  rw [parse, documentNode, Node.preorder, List.mem_cons, Element.preorderOf_concat,
    List.mem_append] at member
  rcases member with rfl | inside | last
  · refine ⟨whole, ?_⟩
    intro e child
    rcases List.mem_append.mp child with gathered | atEnd
    · exact placed.gathered e gathered
    · rw [List.mem_singleton.mp atEnd]
      exact .token (placed.ahead _ (List.mem_append_right _ List.mem_cons_self))
  · exact placed.below n inside
  · exact absurd last List.not_mem_nil

/-! ## Look-ups in a node -/

namespace Node.Placed

variable {n : Node}

/-- A token right below a node has the property with it. -/
theorem token (placed : n.Placed P) {t : Token} (member : t ∈ n.tokens) : t.Placed P := by
  cases placed.children _ (mem_children_of_mem_tokens member) with
  | token placed => exact placed

/-- A node right below another one has its place with the property. -/
theorem node (placed : n.Placed P) {m : Node} (member : m ∈ n.nodes) : P m.span :=
  (placed.children _ (mem_children_of_mem_nodes member)).span

/-- A missing name behind a keyword. -/
theorem placeAfter (placed : n.Placed P) (kept : Span.Kept P) (word : Keyword) :
    P (n.placeAfter (.keyword word)) := by
  have among : ∀ e ∈ n.children.dropWhile (!·.isToken (.keyword word)), e ∈ n.children :=
    fun e member => (List.dropWhile_sublist _).subset member
  have first := List.head?_dropWhile_not (!·.isToken (.keyword word)) n.children
  unfold Node.placeAfter
  split
  · next first next rest split =>
    rw [split] at among
    exact kept.emptyAtStart (placed.children next (among next (by simp))).span
  · next keyword split =>
    rw [split] at among first
    have isKeyword : keyword.kind = .keyword word := by
      simpa [Element.isToken, Element.token?] using first
    cases placed.children _ (among (.token keyword) (by simp)) with
    | token placed => exact placed.behind word isKeyword
  · exact kept.emptyAtStart placed.span

/-- The name behind a keyword has the property: it is the place of a token or the place where a
name is missing. -/
theorem nameAfter (placed : n.Placed P) (kept : Span.Kept P) (word : Keyword) :
    P (n.nameAfter word).span := by
  unfold Node.nameAfter
  split
  · next t found =>
    split
    · exact (placed.token (tokenAfter?_mem found)).span
    · exact placed.placeAfter kept word
  · exact placed.placeAfter kept word

/-- The name of a variant has the property. -/
theorem variantName (placed : n.Placed P) (kept : Span.Kept P) : P n.variantName.span := by
  unfold Node.variantName
  split
  · next t found => exact (placed.token (List.mem_of_find?_eq_some found)).span
  · exact kept.emptyAtStart placed.span

/-- The number of a node has the property. -/
theorem number (placed : n.Placed P) {t : Token} (found : n.numberToken? = some t) : P t.span :=
  (placed.token (tokenAfter?_mem found)).span

end Node.Placed

/-- The name of an import has the property. It is the place of a string or the union of the
tokens of a dotted name. -/
theorem Node.Placed.importName {n : Node} (placed : n.Placed P) (kept : Span.Kept P) :
    P n.importName.span := by
  have among : ∀ t ∈ n.importTarget, P t.span := fun t member =>
    (placed.token (n.importTarget_subset t member)).span
  unfold Node.importName
  split
  · exact placed.placeAfter kept .importing
  · next first rest target =>
    rw [target] at among
    have begins := among first List.mem_cons_self
    split
    · exact begins
    · apply kept.foldl_union begins
      intro span member
      obtain ⟨t, inside, rfl⟩ := List.mem_map.mp member
      exact among t (List.mem_cons_of_mem first inside)

/-! ## Documents -/

/-- A part all of whose places have the property. -/
def Part.Placed (P : Span → Prop) (p : Part) : Prop :=
  ∀ s ∈ p.places, P s

namespace Node.Placed

variable {n : Node}

/-- The import that a node denotes has the property in its places. -/
theorem toImport (placed : n.Placed P) (kept : Span.Kept P) :
    (Part.importing n.toImport).Placed P := by
  intro s member
  rcases List.mem_cons.mp member with rfl | name
  · exact placed.span
  · exact List.mem_singleton.mp name ▸ placed.importName kept

/-- The variant that a node denotes has it in its places: its own, that of its name and that of
its value. -/
theorem toVariant (placed : n.Placed P) (kept : Span.Kept P) :
    (Part.variant n.toVariant).Placed P := by
  intro s member
  rcases List.mem_cons.mp member with rfl | mark
  · exact placed.span
  · rcases List.mem_cons.mp mark with rfl | value
    · exact placed.variantName kept
    · obtain ⟨t, found, rfl⟩ := Option.map_eq_some_iff.mp (Option.mem_toList.mp value)
      exact placed.number found

/-- The field that a node denotes has it in its places and in that of its type, which is the
place of a node below. -/
theorem toField (placed : n.Placed P) (kept : Span.Kept P) : ∀ p ∈ n.toField.walk, p.Placed P := by
  intro p part s member
  rcases List.mem_cons.mp part with rfl | below
  · rcases List.mem_cons.mp member with rfl | mark
    · exact placed.span
    · rcases List.mem_cons.mp mark with rfl | tag
      · exact placed.nameAfter kept .field
      · obtain ⟨t, found, rfl⟩ := Option.map_eq_some_iff.mp (Option.mem_toList.mp tag)
        exact placed.number found
  · obtain ⟨t, given, rfl⟩ := Option.map_eq_some_iff.mp (Option.mem_toList.mp below)
    obtain ⟨type, found, same⟩ := Node.InPlace.exists_type given
    have place : s = t.span := List.mem_singleton.mp member
    rw [place, same]
    exact placed.node (List.mem_of_find?_eq_some found)

end Node.Placed

namespace Node

variable {n m : Node}

/-- What is below a tree with the property has it too. -/
theorem placed_below (all : ∀ inner ∈ n.preorder, inner.Placed P) (member : m ∈ n.nodes) :
    ∀ inner ∈ m.preorder, inner.Placed P :=
  fun inner below => all inner (preorder_of_mem_nodes member inner below)

/-- The root of a tree with the property has it. -/
theorem placed_self (all : ∀ inner ∈ n.preorder, inner.Placed P) : n.Placed P :=
  all n n.self_mem_preorder

/-- What a node declares has the property in all places, those of its fields or variants among
them. For each of the three kinds the walk meets the declaration and then what is read from the
nodes below. -/
theorem toDeclaration?_placed (kept : Span.Kept P) (all : ∀ inner ∈ n.preorder, inner.Placed P)
    {declaration : Declaration} (denoted : n.toDeclaration? = some declaration) :
    ∀ p ∈ declaration.walk, p.Placed P := by
  have placed := placed_self all
  intro p part
  unfold toDeclaration? at denoted
  split at denoted
  · cases denoted
    exact List.mem_singleton.mp part ▸ placed.toImport kept
  · cases denoted
    rcases List.mem_cons.mp part with rfl | below
    · intro s member
      rcases List.mem_cons.mp member with rfl | name
      · exact placed.span
      · exact List.mem_singleton.mp name ▸ placed.nameAfter kept .message
    · obtain ⟨f, field, inside⟩ := List.mem_flatMap.mp below
      obtain ⟨m, among, rfl⟩ := List.mem_map.mp field
      exact (placed_self (placed_below all (List.mem_filter.mp among).1)).toField kept p inside
  · cases denoted
    rcases List.mem_cons.mp part with rfl | below
    · intro s member
      rcases List.mem_cons.mp member with rfl | name
      · exact placed.span
      · exact List.mem_singleton.mp name ▸ placed.nameAfter kept .enum
    · obtain ⟨v, variant, rfl⟩ := List.mem_map.mp below
      obtain ⟨m, among, rfl⟩ := List.mem_map.mp variant
      exact (placed_self (placed_below all (List.mem_filter.mp among).1)).toVariant kept
  · cases denoted

/-- All places of the document of a tree have the property. -/
theorem toDocument_placed (kept : Span.Kept P) (all : ∀ inner ∈ n.preorder, inner.Placed P)
    (name : String) : ∀ s ∈ (n.toDocument name).places, P s := by
  intro s member
  obtain ⟨p, part, inside⟩ := List.mem_flatMap.mp member
  rcases List.mem_cons.mp part with rfl | below
  · exact List.mem_singleton.mp inside ▸ (placed_self all).span
  · obtain ⟨declaration, declared, within⟩ := List.mem_flatMap.mp below
    obtain ⟨m, among, denoted⟩ := List.mem_filterMap.mp declared
    exact toDeclaration?_placed kept (placed_below all among) denoted p within s inside

end Node

/-! ## Findings in a tree -/

namespace Node

variable {n : Node}

/-- Findings that are not withheld are those that were found. -/
theorem mem_of_mem_findings {found : List Diagnostic} {d : Diagnostic}
    (member : d ∈ n.findings found) : d ∈ found := by
  unfold findings at member
  split at member
  · exact absurd member List.not_mem_nil
  · exact member

/-- What is found of an import is found at its string. -/
theorem Placed.importFindings (placed : n.Placed P) : ∀ d ∈ n.importFindings, P d.span := by
  intro d member
  have found := mem_of_mem_findings member
  split at found
  · exact absurd found List.not_mem_nil
  · next first rest target =>
    split at found
    · rw [List.mem_singleton.mp found]
      exact (placed.token (n.importTarget_subset first (by simp [target]))).span
    · exact absurd found List.not_mem_nil

/-- What is found of a number is found at its token. -/
theorem Placed.numberFindings (placed : n.Placed P) (usable : String → Bool)
    (problem : String → Problem) : ∀ d ∈ n.numberFindings usable problem, P d.span := by
  intro d member
  unfold Node.numberFindings at member
  split at member
  · next t found =>
    split at member
    · rw [List.mem_singleton.mp member]
      exact placed.number found
    · exact absurd member List.not_mem_nil
  · exact absurd member List.not_mem_nil

/-- What is found of a field is found at a modifier, at its name or at its number. -/
theorem Placed.fieldFindings (placed : n.Placed P) (kept : Span.Kept P) :
    ∀ d ∈ n.fieldFindings, P d.span := by
  intro d member
  have found := mem_of_mem_findings member
  rcases List.mem_append.mp found with other | number
  · rcases List.mem_append.mp other with modifier | type
    · obtain ⟨t, later, rfl⟩ := List.mem_map.mp modifier
      exact (placed.token (List.mem_filter.mp (List.mem_of_mem_drop later)).1).span
    · split at type
      · rw [List.mem_singleton.mp type]
        exact placed.nameAfter kept .field
      · exact absurd type List.not_mem_nil
  · exact placed.numberFindings _ _ d number

/-- What is found of a variant is found at its name or at its number. -/
theorem Placed.variantFindings (placed : n.Placed P) (kept : Span.Kept P) :
    ∀ d ∈ n.variantFindings, P d.span := by
  intro d member
  have found := mem_of_mem_findings member
  split at found
  · rw [List.mem_singleton.mp found]
    exact placed.variantName kept
  · exact placed.numberFindings _ _ d found

/-- What is found in the declarations of a tree is found at such places. -/
theorem documentFindings_placed (kept : Span.Kept P) (all : ∀ inner ∈ n.preorder, inner.Placed P) :
    ∀ d ∈ n.documentFindings, P d.span := by
  intro d member
  obtain ⟨m, among, found⟩ := List.mem_flatMap.mp member
  have below := placed_below all among
  unfold declarationFindings at found
  split at found
  · exact (placed_self below).importFindings d found
  · obtain ⟨f, field, inside⟩ := List.mem_flatMap.mp found
    exact (placed_self (placed_below below (List.mem_filter.mp field).1)).fieldFindings kept d inside
  · obtain ⟨v, variant, inside⟩ := List.mem_flatMap.mp found
    exact (placed_self (placed_below below (List.mem_filter.mp variant).1)).variantFindings kept d
      inside
  · exact absurd found List.not_mem_nil

end Node

/-! ## Sources -/

/-- Being real is kept: the start of a real span and the union of two real spans are real. -/
theorem Span.Real.kept (source : String) : Span.Kept (Span.Real source) where
  emptyAtStart := Span.Real.emptyAtStart
  union := Span.Real.union

/-- The tokens of a source stand at real places, and the place behind a keyword is real, since
no keyword has a newline. -/
theorem tokenize_placed (source : String) : ∀ t ∈ tokenize source, t.Placed (Span.Real source) := by
  intro t member
  have stands : t.StandsIn source := standsIn_of_mem_tokenize (List.mem_filter.mp member).1
  refine ⟨stands.real, ?_⟩
  intro word kind
  obtain ⟨shown, last, tokens, isEnd, -, allRead⟩ := exists_tokenize_read source
  rw [tokens, List.mem_append, List.mem_singleton] at member
  rcases member with inside | rfl
  · exact stands.pointAfter_real ((allRead t inside).noNewline_of_keyword kind)
  · exact nomatch isEnd.symm.trans kind

/-- The grammar sees only tokens of the source, the end token among them. -/
theorem ahead_subset (source : String) :
    ∀ t ∈ significant (tokenize source) ++ [endToken (tokenize source)], t ∈ tokenize source := by
  intro t member
  obtain ⟨shown, last, tokens, isEnd, -, allRead⟩ := exists_tokenize_read source
  rcases List.mem_append.mp member with significant | atEnd
  · exact (List.takeWhile_sublist _).subset (List.mem_filter.mp significant).1
  · rw [List.mem_singleton.mp atEnd, tokens, endToken, find?_end_of_read allRead isEnd]
    simp

/-- The place of the whole tree is real: it is the whole source. -/
theorem tree_span_real (source : String) : (parseSource source).tree.span.Real source := by
  have split : source.toList = [] ++ source.toList ++ [] := by simp
  have real := Span.Real.between split
  rw [(parseSource_inPlace source).2, ← Position.offset_end]
  exact real

/-- All nodes of a parsed tree stand at real places. -/
theorem parseSource_placed (source : String) :
    ∀ n ∈ (parseSource source).tree.preorder, n.Placed (Span.Real source) :=
  parse_placed (Span.Real.kept source)
    (fun t member => tokenize_placed source t (ahead_subset source t member))
    (tree_span_real source)

/-- What is found while a tree is read is found at a token, or where one starts.

Proof: a finding is carried by a token, or a run has reported it at a token that was ahead or at
its start. Tokens of a source are at real places. -/
theorem parseSource_findings_real (source : String) :
    ∀ d ∈ (parseSource source).findings, d.span.Real source := by
  obtain ⟨added, told, reported⟩ := (Rule.declarations_run (.start (tokenize source))).added
  intro d member
  have found : d ∈ tokenFindings (tokenize source) ++ added := told ▸ member
  rcases List.mem_append.mp found with carried | new
  · have place : ∃ t ∈ tokenize source, t.finding? = some d := by
      rcases List.mem_append.mp carried with before | atEnd
      · obtain ⟨t, inside, finding⟩ := List.mem_filterMap.mp before
        exact ⟨t, (List.takeWhile_sublist _).subset inside, finding⟩
      · obtain ⟨t, last, finding⟩ := Option.bind_eq_some_iff.mp (Option.mem_toList.mp atEnd)
        exact ⟨t, List.mem_of_find?_eq_some last, finding⟩
    obtain ⟨t, inside, finding⟩ := place
    obtain ⟨problem, -, rfl⟩ := Option.map_eq_some_iff.mp finding
    exact (tokenize_placed source t inside).span
  · obtain ⟨-, t, inside, place⟩ := reported d new
    have real := (tokenize_placed source t (ahead_subset source t inside)).span
    rcases place with same | atStart
    · exact same ▸ real
    · exact atStart ▸ real.emptyAtStart

/-- Every place that an analysis records, in its document or in a finding of any
stage, is a real place of the source.

Proof: being real is kept where places are made from others, so every node of the tree has real
places, and with them the document that is read off it and what is found in reading it.
Resolution and the checks point at places of that document only. -/
theorem recorded_places_real (source name : String) (imports : Imports) (config : Config) :
    (∀ s ∈ (analyze source name imports config).document.places, s.Real source)
      ∧ ∀ d ∈ (analyze source name imports config).diagnostics, d.span.Real source := by
  have kept := Span.Real.kept source
  have tree := parseSource_placed source
  have read : ∀ s ∈ ((parseSource source).tree.toDocument name).places, s.Real source :=
    Node.toDocument_placed kept tree name
  have same : (analyze source name imports config).document.places
      = ((parseSource source).tree.toDocument name).places := Scope.places_resolveDocument _ _
  constructor
  · rw [same]
    exact read
  intro d member
  have found := (analyze_diagnostics_perm source name imports config).mem_iff.mp member
  simp only [List.mem_append] at found
  rcases found with ((parsing | building) | resolution) | check
  · exact parseSource_findings_real source d parsing
  · exact Node.documentFindings_placed kept tree d building
  · exact read _ (Scope.findings_mem _ _ resolution)
  · have place := validationFindings_mem check
    rw [same] at place
    exact read _ place

end MessageSchema
