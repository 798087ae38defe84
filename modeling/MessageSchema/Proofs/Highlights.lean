import MessageSchema.Proofs.Headings

/-!
# Names shown in their classes

An editor colours the names of a source, and the references that stand for something.
They are collected along a walk of the document and never sorted, yet they come in the
order of the source and do not overlap. Of two parts in a walk the first one has ended
before the second begins, or the second is below the first, and what is below a part
stands behind its name.

What is shown begins and ends at the edge of a token. This is true of every place that a
document records, except for the one of the whole source, since places are made of the
places of tokens.
-/

namespace MessageSchema

/-! ## The edges of tokens -/

/-- An offset at which a token of a source starts or stops. Blanks and comments do not
count. -/
def AtTokenEdge (source : String) (offset : Nat) : Prop :=
  ∃ t ∈ tokenize source, offset = t.span.start ∨ offset = t.span.stop

/-- A span that starts and stops at the edge of a token. -/
structure Span.OnTokens (source : String) (s : Span) : Prop where
  starts : AtTokenEdge source s.start
  stops : AtTokenEdge source s.stop

/-- Spans at the edges of tokens stay there where the grammar combines them. A union starts
where one of the two spans starts, and stops where one of them stops. -/
theorem Span.OnTokens.kept (source : String) : Span.Kept (Span.OnTokens source) where
  emptyAtStart := fun on => ⟨on.starts, on.starts⟩
  union := by
    intro s t first second
    constructor
    · unfold Span.union
      split
      · exact second.starts
      · exact first.starts
    · show AtTokenEdge source (max s.stop t.stop)
      rw [Nat.max_def]
      split
      · exact second.stops
      · exact first.stops

/-- The tokens of a source stand at edges of tokens, and so do the places behind them. -/
theorem tokenize_onTokens (source : String) :
    ∀ t ∈ tokenize source, t.Placed (Span.OnTokens source) := by
  intro t member
  have stops : AtTokenEdge source t.span.stop := ⟨t, member, .inr rfl⟩
  exact ⟨⟨⟨t, member, .inl rfl⟩, stops⟩, fun _ _ => ⟨stops, stops⟩⟩

/-- What is true of the tokens of a source, and is kept where places are made from others,
is true of all places in the declarations. -/
theorem toDocument_declarations_placed {P : Span → Prop} (kept : Span.Kept P) {source name : String}
    (tokens : ∀ t ∈ tokenize source, t.Placed P) {declaration : Declaration}
    (declared : declaration ∈ ((parseSource source).tree.toDocument name).declarations) :
    ∀ p ∈ declaration.walk, p.Placed P := by
  have read := (Rule.declarations_run (.start (tokenize source))).placed kept
    ⟨fun t member => tokens t (ahead_subset source t member), nofun, nofun⟩
  obtain ⟨n, node, denoted⟩ := List.mem_filterMap.mp declared
  refine Node.toDeclaration?_placed kept (fun inner below => read.below inner ?_) denoted
  rw [parseSource, parse, nodes_documentNode] at node
  rw [Element.preorderOf_eq]
  exact List.mem_flatMap.mpr ⟨n, node, below⟩

/-! ## What is shown for a part -/

namespace Document

variable {d : Document} {length : Nat} {p q : Part} {h k : Highlight}

/-- The name of a part is shown, or the part itself if it is a reference. -/
theorem highlight?_place (shown : highlight? p = some h) :
    (∃ name ∈ p.name?, h.span = name.span) ∨ p.children = [] ∧ h.span = p.span := by
  cases p with
  | document d => cases shown
  | typeRef t =>
    right
    simp only [highlight?] at shown
    split at shown <;> cases shown <;> exact ⟨rfl, rfl⟩
  | _ =>
    cases shown
    exact .inl ⟨_, rfl, rfl⟩

/-- What is shown of a part is its name, or the place of a reference, which are places it
records. -/
theorem highlight?_mem_places (shown : highlight? p = some h) : h.span ∈ p.places := by
  rcases highlight?_place shown with ⟨name, given, place⟩ | ⟨-, place⟩
  · rw [place]
    cases p <;> cases given <;> exact List.mem_cons_of_mem _ List.mem_cons_self
  · rw [place]
    exact List.mem_cons_self

/-- Highlights are what parts of the document show, as far as it has width. -/
theorem mem_highlights_iff :
    h ∈ d.highlights ↔ (∃ p ∈ d.walk, highlight? p = some h) ∧ h.span.start ≠ h.span.stop := by
  simp [highlights, Span.isEmpty]

/-- What is shown was read in a declaration, so it has what the places there have. -/
theorem analyze_highlight_placed {P : Span → Prop} (kept : Span.Kept P) {source name : String}
    {imports : Imports} {config : Config} (tokens : ∀ t ∈ tokenize source, t.Placed P)
    (member : h ∈ (analyze source name imports config).document.highlights) : P h.span := by
  obtain ⟨⟨p, part, shown⟩, -⟩ := mem_highlights_iff.mp member
  obtain ⟨scope, used, q, among, rfl⟩ := exists_part_of_analyze part
  have place := highlight?_mem_places shown
  rw [scope.places_resolvePart] at place
  rcases List.mem_cons.mp among with rfl | below
  · cases shown
  · obtain ⟨declaration, declared, within⟩ := List.mem_flatMap.mp below
    exact toDocument_declarations_placed kept tokens declared q within h.span place

namespace Laid

/-- What is shown for a part lies inside the part. -/
theorem contains_highlight (laid : d.Laid length) (part : p ∈ d.walk)
    (shown : highlight? p = some h) : p.span.contains h.span = true := by
  rcases List.mem_cons.mp (highlight?_mem_places shown) with same | mark
  · rw [same]
    exact Span.contains_iff.mpr ⟨Nat.le_refl _, Nat.le_refl _⟩
  · exact (laid.parts p part).marks h.span mark

/-- What is shown for a part ends before anything that is shown for a later part of a
walk begins. -/
theorem highlight_before (laid : d.Laid length) (headed : ∀ p ∈ d.walk, p.Headed)
    (first : p ∈ d.walk) (second : q ∈ d.walk) (precedes : p.Precedes q)
    (shown : highlight? p = some h) (other : highlight? q = some k) :
    h.span.stop ≤ k.span.start := by
  have inner := Span.contains_iff.mp (laid.contains_highlight second other)
  rcases precedes with ⟨child, member, down⟩ | apart
  · rcases highlight?_place shown with ⟨name, given, place⟩ | ⟨leaf, -⟩
    · have front := (headed p first).before name given child member
      have inside := Span.contains_iff.mp
        (laid.contains ((mem_walk_iff.mp first).tail member) down)
      rw [place]
      omega
    · rw [leaf] at member
      exact absurd member List.not_mem_nil
  · have outer := Span.contains_iff.mp (laid.contains_highlight first shown)
    omega

/-- Highlights do not overlap, and come in the order of the source. Of two parts in a walk the
first shows something that ends before the second begins, or its name stands in front of the
second. -/
theorem highlights_apart (laid : d.Laid length) (headed : ∀ p ∈ d.walk, p.Headed) :
    d.highlights.Pairwise fun a b => a.span.stop ≤ b.span.start := by
  have walked : d.walk.Pairwise Part.Precedes := (Part.document d).walk_pairwise laid.parts
  apply List.Pairwise.filter
  apply List.pairwise_filterMap.mpr
  refine walked.imp_of_mem ?_
  intro p q first second precedes h shown k other
  exact laid.highlight_before headed first second precedes shown other

end Laid

end Document

/-! ## Valid highlights -/

/-- Highlights of a document over a source that an editor can draw, and that leave nothing
out: each has width and covers whole tokens of the source, they follow one another without
overlapping, and every name and every reference that stands for something is among them. -/
structure Document.Highlighted (d : Document) (source : String) (shown : List Highlight) :
    Prop where
  wide : ∀ h ∈ shown, h.span.start < h.span.stop
  inside : ∀ h ∈ shown, h.span.stop ≤ source.utf8ByteSize
  onTokens : ∀ h ∈ shown, h.span.OnTokens source
  ascending : shown.Pairwise fun a b => a.span.start < b.span.start
  apart : shown.Pairwise fun a b => a.span.stop ≤ b.span.start
  names : ∀ p, (Part.document d).Above p → ∀ name ∈ p.name?, name.text ≠ "" →
    ∃ h ∈ shown, h.span = name.span
  references : ∀ t ∈ d.typeRefs, t.resolution ≠ .unresolved → ∃ h ∈ shown, h.span = t.span

/-- Every name that is not missing is shown. -/
theorem Document.exists_highlight_of_name {d : Document} (headed : ∀ p ∈ d.walk, p.Headed)
    {p : Part} (part : p ∈ d.walk) {name : NamePart} (given : p.name? = some name)
    (text : name.text ≠ "") : ∃ h ∈ d.highlights, h.span = name.span := by
  have shown : ∃ h, highlight? p = some h ∧ h.span = name.span := by
    cases p <;> cases given <;> exact ⟨_, rfl, rfl⟩
  obtain ⟨h, found, place⟩ := shown
  refine ⟨h, mem_highlights_iff.mpr ⟨⟨p, part, found⟩, ?_⟩, place⟩
  rw [place]
  exact Nat.ne_of_lt ((headed p part).wide name given text)

/-- Every reference that stands for something is shown. -/
theorem Document.exists_highlight_of_typeRef {d : Document} {t : TypeRef} (member : t ∈ d.typeRefs)
    (wide : t.span.start < t.span.stop) (resolved : t.resolution ≠ .unresolved) :
    ∃ h ∈ d.highlights, h.span = t.span := by
  have shown : ∃ h, highlight? (.typeRef t) = some h ∧ h.span = t.span := by
    cases stands : t.resolution with
    | unresolved => exact absurd stands resolved
    | builtin => exact ⟨⟨t.span, .type⟩, by simp [highlight?, stands], rfl⟩
    | declaration id =>
      exact ⟨⟨t.span, NameClass.ofDeclKind id.kind⟩, by simp [highlight?, stands], rfl⟩
  obtain ⟨h, found, place⟩ := shown
  refine ⟨h, mem_highlights_iff.mpr ⟨⟨_, mem_typeRefs_iff.mp member, found⟩, ?_⟩, place⟩
  rw [place]
  exact Nat.ne_of_lt wide

/-- The highlights of an analysed document are in the order of the source, do not overlap
and cover whole tokens, whatever the source is.

Proof: the parts come in the order of the walk, in which names stand in front of what is below
them, so what is shown does not overlap. Width and token edges are properties of all recorded
places, carried over from the tokens. -/
theorem highlights_in_order (source name : String) (imports : Imports) (config : Config) :
    (analyze source name imports config).document.Highlighted source
      (analyze source name imports config).document.highlights := by
  let d := (analyze source name imports config).document
  have laid : d.Laid source.utf8ByteSize := analyze_laid source name imports config
  have headed : ∀ p ∈ d.walk, p.Headed := analyze_headed source name imports config
  have real : ∀ h ∈ d.highlights, h.span.Real source := fun h =>
    Document.analyze_highlight_placed (Span.Real.kept source) (tokenize_placed source)
  have edges : ∀ h ∈ d.highlights, h.span.OnTokens source := fun h =>
    Document.analyze_highlight_placed (Span.OnTokens.kept source) (tokenize_onTokens source)
  have wide : ∀ h ∈ d.highlights, h.span.start < h.span.stop := by
    intro h member
    exact Nat.lt_of_le_of_ne (real h member).forward (Document.mem_highlights_iff.mp member).2
  have apart := laid.highlights_apart headed
  constructor
  case wide => exact wide
  case inside => exact fun h member => (real h member).inside
  case onTokens => exact edges
  case apart => exact apart
  case ascending =>
    refine apart.imp_of_mem fun first second before => ?_
    exact Nat.lt_of_lt_of_le (wide _ first) before
  case names =>
    intro p above name given text
    exact Document.exists_highlight_of_name headed (Document.mem_walk_iff.mpr above) given text
  case references =>
    intro t member resolved
    exact Document.exists_highlight_of_typeRef member (analyze_typeRefs_wide member) resolved

-- A missing name and a reference that stands for nothing are not shown.
example :
    (analyze "message \x7b field f: Missing = 1; \x7d" "main" .empty .standard).document.highlights
      = [⟨⟨16, 17, 1, 17⟩, .field⟩] := by
  decide +kernel

end MessageSchema
