import MessageSchema.Proofs.Keywords
import MessageSchema.Proofs.Positions

/-!
# Places inside different declarations

A declaration begins with its keyword, and what is named in it stands behind the keyword:
its name, or the place where the name is missing, and its items. A keyword has width. So
while two neighbouring declarations may touch, and the place of a missing name may be
where the next declaration starts, no place inside one declaration starts where a place
inside another one does. A finding can therefore be told by its place.
-/

namespace MessageSchema

/-- All that a field records lies within the field. -/
theorem Field.InPlace.contains_places {f : Field} (inPlace : f.InPlace) {p : Part}
    (part : p ∈ f.walk) : ∀ s ∈ p.places, f.span.contains s = true := by
  intro s place
  rcases List.mem_cons.mp part with rfl | type
  · rcases List.mem_cons.mp place with rfl | mark
    · exact Span.contains_iff.mpr ⟨Nat.le_refl _, Nat.le_refl _⟩
    · exact inPlace.whole.marks s mark
  · obtain ⟨begins, -, ends⟩ := inPlace.whole.children.bounds (List.mem_map_of_mem type)
    obtain ⟨t, -, rfl⟩ := Option.map_eq_some_iff.mp (Option.mem_toList.mp type)
    rw [List.mem_singleton.mp place]
    exact Span.contains_iff.mpr ⟨begins, ends⟩

/-- All that a variant records lies within the variant. -/
theorem Part.InPlace.contains_places {v : Variant} (inPlace : (Part.variant v).InPlace) :
    ∀ s ∈ (Part.variant v).places, v.span.contains s = true := by
  intro s place
  rcases List.mem_cons.mp place with rfl | mark
  · exact Span.contains_iff.mpr ⟨Nat.le_refl _, Nat.le_refl _⟩
  · exact inPlace.marks s mark

/-! ## Behind the keyword -/

/-- A keyword that starts a declaration is one of three, and each has its own kind of node. -/
theorem TokenKind.declares?_cases {kind : TokenKind} {node : NodeKind}
    (declares : kind.declares? = some node) :
    (kind = .keyword .importing ∧ node = .importing)
      ∨ (kind = .keyword .message ∧ node = .message)
      ∨ (kind = .keyword .enum ∧ node = .enum) := by
  unfold declares? at declares
  split at declares <;> cases declares <;> simp

/-- The stretch of a node behind its keyword. -/
def Node.behind (n : Node) (keyword : Token) : Span :=
  { keyword.pointAfter with stop := n.span.stop }

namespace Node.HeadedBy

variable {n : Node} {keyword : Token}

/-- The children behind the keyword lie behind it. -/
theorem exists_behind (headed : n.HeadedBy keyword) (inPlace : n.InPlace) :
    ∃ others, n.children = .token keyword :: others
      ∧ n.span.start ≤ keyword.span.start ∧ keyword.span.stop ≤ n.span.stop
      ∧ ∀ e ∈ others, (n.behind keyword).contains e.span = true ∧ e.span.start ≤ e.span.stop := by
  obtain ⟨others, children, -⟩ := headed.exists_others
  rw [InPlace, children] at inPlace
  obtain ⟨begins, -, later⟩ := inPlace
  refine ⟨others, children, begins, later.le, fun e member => ?_⟩
  obtain ⟨behind, forward, inside⟩ := later.bounds (List.mem_map_of_mem member)
  exact ⟨Span.contains_iff.mpr ⟨behind, inside⟩, forward⟩

/-- The place where a name would stand lies behind the keyword. -/
theorem contains_placeAfter (headed : n.HeadedBy keyword) (inPlace : n.InPlace) {word : Keyword}
    (found : keyword.kind = .keyword word) :
    (n.behind keyword).contains (n.placeAfter (.keyword word)) = true := by
  obtain ⟨others, children, -, ends, behind⟩ := headed.exists_behind inPlace
  cases others with
  | nil =>
    have place : n.placeAfter (.keyword word) = keyword.pointAfter := by
      simp [placeAfter, children, Element.isToken, Element.token?, found]
    rw [place]
    exact Span.contains_iff.mpr ⟨Nat.le_refl _, ends⟩
  | cons next rest =>
    have split : n.children = [] ++ .token keyword :: next :: rest := children
    rw [placeAfter_of_split split (List.forall_mem_nil _) found]
    obtain ⟨inside, forward⟩ := behind next List.mem_cons_self
    exact Span.contains_emptyAtStart inside forward

/-- The name of a declaration, or the place where it is missing, lies behind the keyword. -/
theorem contains_nameAfter (headed : n.HeadedBy keyword) (inPlace : n.InPlace) {word : Keyword}
    (found : keyword.kind = .keyword word) :
    (n.behind keyword).contains (n.nameAfter word).span = true := by
  obtain ⟨others, children, -, -, behind⟩ := headed.exists_behind inPlace
  have tokens : n.tokens = [] ++ keyword :: others.filterMap Element.token? := by
    rw [Node.tokens, children]
    rfl
  unfold nameAfter
  split
  · next t next =>
    split
    · rw [tokenAfter?_of_split tokens (List.forall_mem_nil _) found] at next
      obtain ⟨e, among, same⟩ := List.mem_filterMap.mp (List.mem_of_mem_head? next)
      cases e with
      | token u => exact Option.some.inj same ▸ (behind _ among).1
      | node m => cases same
    · exact headed.contains_placeAfter inPlace found
  · exact headed.contains_placeAfter inPlace found

/-- What an import names stands behind its keyword, which names nothing.

Proof: what an import names is made of tokens that can be part of a target, and the keyword is
none of them, so all of them stand behind it. Without any the name is where the place behind the
keyword is. -/
theorem contains_importName (headed : n.HeadedBy keyword) (inPlace : n.InPlace)
    (found : keyword.kind = .keyword .importing) :
    (n.behind keyword).contains n.importName.span = true := by
  obtain ⟨others, children, -, -, behind⟩ := headed.exists_behind inPlace
  have among : ∀ t ∈ n.importTarget, (n.behind keyword).contains t.span = true := by
    intro t member
    have target : isTargetKind t.kind = true := by
      rw [importTarget, List.mem_reverse] at member
      have kept := List.mem_reverse.mp ((List.dropWhile_sublist _).subset member)
      exact (List.mem_filter.mp kept).2
    have child := mem_children_of_mem_tokens (n.importTarget_subset t member)
    rw [children] at child
    rcases List.mem_cons.mp child with same | later
    · cases same
      rw [found] at target
      cases target
    · exact (behind _ later).1
  unfold importName
  split
  · exact headed.contains_placeAfter inPlace found
  · next first rest target =>
    rw [target] at among
    have begins := among first List.mem_cons_self
    split
    · exact begins
    · apply Span.contains_foldl_union begins
      intro span member
      obtain ⟨t, inside, rfl⟩ := List.mem_map.mp member
      exact among t (List.mem_cons_of_mem first inside)

/-- The items of a declaration stand behind its keyword. -/
theorem contains_item (headed : n.HeadedBy keyword) (inPlace : n.InPlace) {kind : NodeKind}
    {m : Node} (member : m ∈ n.nodesOf kind) : (n.behind keyword).contains m.span = true := by
  obtain ⟨others, children, -, -, behind⟩ := headed.exists_behind inPlace
  have child := mem_children_of_mem_nodes (List.mem_filter.mp member).1
  rw [children] at child
  exact (behind _ ((List.mem_cons.mp child).resolve_left nofun)).1

/-- All places inside a declaration are behind its keyword.

Proof: by the kind of the declaration. The name is behind the keyword, and so is each item,
which contains the places inside it. -/
theorem contains_innerPlaces (headed : n.HeadedBy keyword) (sorted : n.Sorted)
    {declaration : Declaration} (denoted : n.toDeclaration? = some declaration) :
    ∀ s ∈ declaration.innerPlaces, (n.behind keyword).contains s = true := by
  have inPlace := sorted.self
  have whole := sorted.toDeclaration? denoted
  intro s place
  rcases TokenKind.declares?_cases headed.kind with
    ⟨found, kind⟩ | ⟨found, kind⟩ | ⟨found, kind⟩ <;> rw [toDeclaration?, kind] at denoted <;>
    cases denoted
  · rw [List.mem_singleton.mp place]
    exact headed.contains_importName inPlace found
  · obtain _ | ⟨-, fields⟩ := whole
    rcases List.mem_cons.mp place with rfl | inside
    · exact headed.contains_nameAfter inPlace found
    · obtain ⟨p, part, among⟩ := List.mem_flatMap.mp inside
      obtain ⟨f, field, walked⟩ := List.mem_flatMap.mp part
      have within := (fields f field).contains_places walked s among
      obtain ⟨m, item, rfl⟩ := List.mem_map.mp field
      exact Span.contains_trans (headed.contains_item inPlace item) within
  · obtain _ | _ | ⟨-, variants⟩ := whole
    rcases List.mem_cons.mp place with rfl | inside
    · exact headed.contains_nameAfter inPlace found
    · obtain ⟨p, part, among⟩ := List.mem_flatMap.mp inside
      obtain ⟨v, variant, rfl⟩ := List.mem_map.mp part
      have within := (variants v variant).contains_places s among
      obtain ⟨m, item, rfl⟩ := List.mem_map.mp variant
      exact Span.contains_trans (headed.contains_item inPlace item) within

end Node.HeadedBy

/-! ## The declarations of a source -/

/-- Every token of a source but the end token has width. -/
theorem Token.IsRead.start_lt_stop {t : Token} (read : t.IsRead) : t.span.start < t.span.stop := by
  obtain ⟨c, rest, p, rfl⟩ := read
  exact p.offset_lt_advanceAll (Reading.read_lexeme_ne_nil c rest)

/-- A node that was not skipped is headed by one of the keywords. -/
theorem Headed.exists_keyword {keywords : List Token} {children : List Element}
    (headed : Headed keywords children) {n : Node} (member : .node n ∈ children)
    (kept : n.kind ≠ .error) : ∃ keyword ∈ keywords, n.HeadedBy keyword := by
  induction headed with
  | none_met => exact absurd member List.not_mem_nil
  | @skipped keywords children m before error free ih =>
    rcases List.mem_append.mp member with earlier | last
    · exact ih earlier
    · cases List.mem_singleton.mp last
      exact absurd error kept
  | @declared keywords children keyword m before heads ih =>
    rcases List.mem_append.mp member with earlier | last
    · obtain ⟨other, among, otherHeads⟩ := ih earlier
      exact ⟨other, List.mem_append_left _ among, otherHeads⟩
    · cases List.mem_singleton.mp last
      exact ⟨keyword, List.mem_append_right _ List.mem_cons_self, heads⟩

/-- The node of a declaration is headed by a keyword that has width. -/
theorem parseSource_headed {source : String} {n : Node}
    (member : n ∈ (parseSource source).tree.nodes) {declaration : Declaration}
    (denoted : n.toDeclaration? = some declaration) :
    ∃ keyword, n.HeadedBy keyword ∧ keyword.span.start < keyword.span.stop := by
  let read := Rule.declarations (.start (tokenize source))
  have headed : Headed _ read.children :=
    Rule.declarations_headed (s := .start (tokenize source)) .none_met
  have child : .node n ∈ read.children := by
    have inner : n ∈ (documentNode read.children read.last).nodes := member
    rw [nodes_documentNode] at inner
    obtain ⟨e, among, same⟩ := List.mem_filterMap.mp inner
    cases e with
    | token t => cases same
    | node m => exact Option.some.inj same ▸ among
  have kept : n.kind ≠ .error := by
    intro error
    rw [Node.toDeclaration?, error] at denoted
    cases denoted
  obtain ⟨keyword, met, heads⟩ := headed.exists_keyword child kept
  have ahead : keyword ∈ significant (tokenize source) := (List.mem_filter.mp met).1
  exact ⟨keyword, heads, (significant_read source keyword ahead).start_lt_stop⟩

/-- Declarations of which no place inside the one starts where one inside the other does. -/
def Declaration.Before (first second : Declaration) : Prop :=
  ∀ s ∈ first.innerPlaces, ∀ t ∈ second.innerPlaces, s.start < t.start

/-- The places inside the declarations of a source follow one another.

Proof: every inner place of a declaration starts behind the keyword, which has width, and stops
within the declaration. Declarations do not overlap, so the places of one are over before those
of the next. -/
theorem toDocument_before (source name : String) :
    ((parseSource source).tree.toDocument name).declarations.Pairwise Declaration.Before := by
  let tree := (parseSource source).tree
  have sorted : tree.Sorted := parseSource_sorted source
  have real : ∀ s ∈ (tree.toDocument name).places, s.Real source :=
    Node.toDocument_placed (Span.Real.kept source) (parseSource_placed source) name
  have inside : ∀ declaration ∈ (tree.toDocument name).declarations,
      ∀ s ∈ declaration.innerPlaces, declaration.span.start < s.start ∧ s.start ≤ s.stop
        ∧ s.stop ≤ declaration.span.stop := by
    intro declaration member s place
    obtain ⟨n, node, denoted⟩ := List.mem_filterMap.mp member
    obtain ⟨keyword, heads, wide⟩ := parseSource_headed node denoted
    obtain ⟨-, -, begins, -⟩ := heads.exists_behind (sorted.below node).self
    obtain ⟨behind, ends⟩ :=
      Span.contains_iff.mp (heads.contains_innerPlaces (sorted.below node) denoted s place)
    have starts : keyword.span.stop ≤ s.start := behind
    have stops : s.stop ≤ n.span.stop := ends
    rw [Node.span_toDeclaration? denoted]
    obtain ⟨p, part, among⟩ := List.mem_flatMap.mp (List.mem_of_mem_tail place)
    have forward := (real s (Document.mem_places (Document.mem_walk member part) among)).forward
    omega
  have ordered : InOrder _ _ ((tree.toDocument name).declarations.map Declaration.span) :=
    InOrder.sublist sorted.self ((Node.declarations_sublist tree.nodes).trans tree.nodes_sublist)
  refine (List.pairwise_map.mp ordered.pairwise).imp_of_mem ?_
  intro a b first second apart s inA t inB
  have early := inside a first s inA
  have late := inside b second t inB
  omega

/-- Resolution keeps the places, so they follow one another in an analysed document. -/
theorem analyze_before (source name : String) (imports : Imports) (config : Config) :
    (analyze source name imports config).document.declarations.Pairwise Declaration.Before := by
  let built := (parseSource source).tree.toDocument name
  let scope := Scope.ofDocument built imports config
  have same (used : List String) (declaration : Declaration) :
      (scope.resolveDeclaration used declaration).innerPlaces = declaration.innerPlaces :=
    congrArg List.tail (scope.places_resolveDeclaration used declaration)
  show (built.declarations.map (scope.resolveDeclaration (scope.usedImports built))).Pairwise _
  refine List.pairwise_map.mpr ((toDocument_before source name).imp ?_)
  intro a b before
  rw [Declaration.Before, same, same]
  exact before

end MessageSchema
