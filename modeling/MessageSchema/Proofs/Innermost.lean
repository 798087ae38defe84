import Mathlib.Logic.Relation
import MessageSchema.Proofs.Layout
import MessageSchema.Query

/-!
# The innermost part around a byte

A cursor is about the innermost part that has its byte. The last part of a walk that
has the byte is taken for it, and this is right only because of how a document is laid
out: what is below a part lies inside it, and siblings do not overlap. So of two parts
in a walk the first is above the second, or it ends before the second begins. The parts
around one byte are then all on one way down from the document, and a walk comes to
them from the top to the bottom.

A source that is malformed makes no difference, for its document is laid out as well. A
part without width has no byte, and a part that reaches over blanks up to the next token
still ends before its next sibling begins.
-/

namespace MessageSchema

/-! ## Ways down -/

namespace Part

/-- A way down from one part to another, from parent to child any number of times. A
part is above itself. -/
def Above : Part → Part → Prop :=
  Relation.ReflTransGen fun parent child => child ∈ parent.children

/-- How many layers there can be below a part. -/
def height : Part → Nat
  | .document _ => 3
  | .message _ | .enum _ => 2
  | .field _ => 1
  | .importing _ | .variant _ | .typeRef _ => 0

/-- A part and all that is below it, parents before their children. -/
def walk : Part → List Part
  | .document d => d.walk
  | .importing i => (Declaration.importing i).walk
  | .message m => (Declaration.message m).walk
  | .field f => f.walk
  | .enum e => (Declaration.enum e).walk
  | .variant v => [.variant v]
  | .typeRef t => [.typeRef t]

variable {p q child : Part}

/-- What stands below a part has fewer layers below it. The cases are the kinds of parts, and
each child has the kind that its parent allows. -/
theorem height_lt_of_mem_children (member : child ∈ p.children) : child.height < p.height := by
  cases p with
  | document d =>
    obtain ⟨declaration, -, rfl⟩ := List.mem_map.mp member
    cases declaration <;> simp [ofDeclaration, height]
  | importing i => exact absurd member List.not_mem_nil
  | message m =>
    obtain ⟨f, -, rfl⟩ := List.mem_map.mp member
    exact Nat.one_lt_two
  | field f =>
    obtain ⟨t, -, rfl⟩ := Option.map_eq_some_iff.mp (Option.mem_toList.mp member)
    exact Nat.one_pos
  | enum e =>
    obtain ⟨v, -, rfl⟩ := List.mem_map.mp member
    exact Nat.two_pos
  | variant v => exact absurd member List.not_mem_nil
  | typeRef t => exact absurd member List.not_mem_nil

/-- What a part has whenever its children have it, every part has. -/
theorem induction_on_children {motive : Part → Prop}
    (step : ∀ p : Part, (∀ child ∈ p.children, motive child) → motive p) (p : Part) : motive p := by
  induction size : p.height using Nat.strongRecOn generalizing p with
  | _ size ih =>
    refine step p fun child member => ih child.height ?_ child rfl
    exact size ▸ height_lt_of_mem_children member

/-- A walk of any part is the part and then the walks of its children.

Proof: by the kind of the part, where the walk of a declaration is the walk of the part that it
is. -/
theorem walk_eq (p : Part) : p.walk = p :: p.children.flatMap walk := by
  cases p with
  | document d =>
    have below : d.declarations.flatMap Declaration.walk
        = (d.declarations.map ofDeclaration).flatMap walk := by
      rw [List.flatMap_map]
      congr 1
      funext declaration
      cases declaration <;> rfl
    exact congrArg (Part.document d :: ·) below
  | importing i => rfl
  | message m =>
    have below : (m.fields.map Part.field).flatMap walk = m.fields.flatMap Field.walk :=
      List.flatMap_map ..
    exact congrArg (Part.message m :: ·) below.symm
  | field f =>
    cases given : f.typeRef <;> simp [walk, Field.walk, children, given]
  | enum e =>
    have below : (e.variants.map Part.variant).flatMap walk = e.variants.map Part.variant := by
      rw [List.flatMap_map, List.map_eq_flatMap]
      rfl
    exact congrArg (Part.enum e :: ·) below.symm
  | variant v => rfl
  | typeRef t => rfl

/-- A part is above exactly those parts that a walk of it comes to. -/
theorem mem_walk_iff : q ∈ p.walk ↔ p.Above q := by
  induction p using induction_on_children with
  | step p ih =>
    rw [walk_eq, List.mem_cons, List.mem_flatMap, Above, Relation.ReflTransGen.cases_head_iff]
    apply or_congr eq_comm
    exact exists_congr fun child => and_congr_right fun member => ih child member

/-- A way down is empty or begins with a child. -/
theorem Above.eq_or_exists_child (above : p.Above q) :
    p = q ∨ ∃ child ∈ p.children, child.Above q :=
  Relation.ReflTransGen.cases_head above

/-- A part above another one is the same part or has more layers below it. -/
theorem Above.eq_or_height_lt (above : p.Above q) : p = q ∨ q.height < p.height := by
  induction above with
  | refl => exact .inl rfl
  | tail path member ih =>
    have lower := height_lt_of_mem_children member
    rcases ih with rfl | less
    · exact .inr lower
    · exact .inr (Nat.lt_trans lower less)

/-- No part is below itself. -/
theorem Above.antisymm (down : p.Above q) (up : q.Above p) : p = q := by
  rcases down.eq_or_height_lt with same | less
  · exact same
  · rcases up.eq_or_height_lt with same | more
    · exact same.symm
    · omega

/-! ## The order of a walk -/

/-- All that is below a part lies inside it. -/
theorem Above.contains (laid : ∀ inner ∈ p.walk, inner.Laid) (above : p.Above q) :
    p.span.contains q.span = true := by
  induction above with
  | refl => exact Span.contains_iff.mpr ⟨Nat.le_refl _, Nat.le_refl _⟩
  | tail path member ih =>
    exact Span.contains_trans ih ((laid _ (mem_walk_iff.mpr path)).inside _ member)

/-- What a walk comes to behind a part is below the part, or begins where the part has
ended. -/
def Precedes (p q : Part) : Prop :=
  (∃ child ∈ p.children, child.Above q) ∨ p.span.stop ≤ q.span.start

/-- In a walk each part comes before those below it, and siblings end before the next one
begins. By induction on the layers: what is below one child lies in that child, and so ends
before the next child does. -/
theorem walk_pairwise (p : Part) (laid : ∀ inner ∈ p.walk, inner.Laid) :
    p.walk.Pairwise Precedes := by
  induction p using induction_on_children with
  | step p ih =>
    have laidBelow : ∀ child ∈ p.children, ∀ inner ∈ child.walk, inner.Laid := by
      intro child member inner among
      apply laid
      rw [walk_eq]
      exact List.mem_cons_of_mem p (List.mem_flatMap.mpr ⟨child, member, among⟩)
    rw [walk_eq, List.pairwise_cons, List.pairwise_flatMap]
    refine ⟨?_, fun child member => ih child member (laidBelow child member), ?_⟩
    · intro q below
      obtain ⟨child, member, among⟩ := List.mem_flatMap.mp below
      exact .inl ⟨child, member, mem_walk_iff.mp among⟩
    · have self : p ∈ p.walk := mem_walk_iff.mpr .refl
      refine (laid p self).ordered.imp_of_mem ?_
      intro a b first second apart x inFirst y inSecond
      have early := (mem_walk_iff.mp inFirst).contains (laidBelow a first)
      have late := (mem_walk_iff.mp inSecond).contains (laidBelow b second)
      rw [Span.contains_iff] at early late
      right
      omega

end Part

/-! ## The parts around a byte -/

/-- A span has an offset from its start on, and up to its end, which is not included. -/
theorem Span.containsOffset_iff {s : Span} {offset : Nat} :
    s.containsOffset offset = true ↔ s.start ≤ offset ∧ offset < s.stop := by
  simp [containsOffset]

/-- A span has the bytes of the spans inside it. -/
theorem Span.containsOffset_of_contains {s t : Span} {offset : Nat} (inside : s.contains t = true)
    (here : t.containsOffset offset = true) : s.containsOffset offset = true := by
  rw [contains_iff] at inside
  rw [containsOffset_iff] at here ⊢
  omega

/-- A part of the document that has a byte, and that every part which has the byte is
above. -/
structure Document.InnermostAt (d : Document) (offset : Nat) (p : Part) : Prop where
  part : (Part.document d).Above p
  here : p.span.containsOffset offset = true
  around : ∀ q, (Part.document d).Above q → q.span.containsOffset offset = true → q.Above p

namespace Document

variable {d : Document} {length offset : Nat} {p q : Part}

/-- A walk of a document meets the parts below it, and no others. -/
theorem mem_walk_iff : p ∈ d.walk ↔ (Part.document d).Above p :=
  Part.mem_walk_iff (p := .document d)

/-- There is only one. -/
theorem InnermostAt.eq (first : d.InnermostAt offset p) (second : d.InnermostAt offset q) :
    p = q :=
  (second.around p first.part first.here).antisymm (first.around q second.part second.here)

namespace Laid

/-- A part of the document lies inside the parts above it. -/
theorem contains (laid : d.Laid length) (part : (Part.document d).Above p) (down : p.Above q) :
    p.span.contains q.span = true := by
  apply down.contains
  intro inner member
  exact laid.parts inner (mem_walk_iff.mpr (part.trans (Part.mem_walk_iff.mp member)))

/-- Of two parts around a byte, the walk comes first to the one that is above. -/
theorem innermost_of_partAt? (laid : d.Laid length) (found : d.partAt? offset = some p) :
    d.InnermostAt offset p := by
  obtain ⟨before, split⟩ := List.getLast?_eq_some_iff.mp found
  have among (q : Part) : q ∈ before ++ [p] ↔ (Part.document d).Above q
      ∧ q.span.containsOffset offset = true := by
    rw [← split, List.mem_filter, mem_walk_iff]
  obtain ⟨part, here⟩ := (among p).mp (List.mem_append_right before List.mem_cons_self)
  have ordered : (before ++ [p]).Pairwise Part.Precedes := by
    rw [← split]
    exact ((Part.document d).walk_pairwise laid.parts).sublist List.filter_sublist
  refine ⟨part, here, fun q above contains => ?_⟩
  rcases List.mem_append.mp ((among q).mpr ⟨above, contains⟩) with earlier | last
  · rcases (List.pairwise_append.mp ordered).2.2 q earlier p List.mem_cons_self with
      ⟨child, member, down⟩ | apart
    · exact .head member down
    · rw [Span.containsOffset_iff] at contains here
      omega
  · exact List.mem_singleton.mp last ▸ .refl

/-- A byte of the source is in some part, if only the document itself. -/
theorem partAt?_eq_none_iff (laid : d.Laid length) : d.partAt? offset = none ↔ length ≤ offset := by
  have root : d.span.containsOffset offset = true ↔ offset < length := by
    rw [Span.containsOffset_iff, laid.whole.1, laid.whole.2]
    exact and_iff_right (Nat.zero_le _)
  rw [partAt?, List.getLast?_eq_none_iff, List.filter_eq_nil_iff, ← Nat.not_lt, ← root]
  constructor
  · intro nowhere
    exact nowhere (.document d) List.mem_cons_self
  · intro outside p member here
    have inside : d.span.contains p.span = true := laid.contains .refl (mem_walk_iff.mp member)
    exact outside (Span.containsOffset_of_contains inside here)

/-- Where a part has a byte, something is found. -/
theorem exists_partAt? (laid : d.Laid length) (part : (Part.document d).Above p)
    (here : p.span.containsOffset offset = true) : ∃ q, d.InnermostAt offset q
      ∧ d.partAt? offset = some q := by
  cases found : d.partAt? offset with
  | none =>
    have outside := List.filter_eq_nil_iff.mp (List.getLast?_eq_none_iff.mp found)
    exact absurd here (outside p (mem_walk_iff.mpr part))
  | some q => exact ⟨q, laid.innermost_of_partAt? found, rfl⟩

/-- The part that is found at an offset is the innermost one there, and the innermost one is
found. There is only one, so it is enough that some part is found where one has the offset. -/
theorem partAt?_eq_some_iff (laid : d.Laid length) :
    d.partAt? offset = some p ↔ d.InnermostAt offset p := by
  constructor
  · exact laid.innermost_of_partAt?
  · intro innermost
    obtain ⟨q, found, same⟩ := laid.exists_partAt? innermost.part innermost.here
    rw [same, found.eq innermost]

/-- A part is found at its bytes that none of its children has. -/
theorem partAt?_of_outside_children (laid : d.Laid length) (part : (Part.document d).Above p)
    (here : p.span.containsOffset offset = true)
    (outside : ∀ child ∈ p.children, ¬ child.span.containsOffset offset = true) :
    d.partAt? offset = some p := by
  obtain ⟨q, innermost, found⟩ := laid.exists_partAt? part here
  rcases (innermost.around p part here).eq_or_exists_child with rfl | ⟨child, member, down⟩
  · exact found
  · have inside := laid.contains (part.tail member) down
    exact absurd (Span.containsOffset_of_contains inside innermost.here) (outside child member)

end Laid

end Document

/-- The document of an analysis is laid out within the bytes of its source. -/
theorem analyze_laid (source name : String) (imports : Imports) (config : Config) :
    (analyze source name imports config).document.Laid source.utf8ByteSize :=
  Scope.resolveDocument_laid _ (parseSource_sorted source) (parseSource_inPlace source).2 name

/-- What is found at an offset is the innermost part around it, for every source and
every offset. Nothing is found exactly behind the end of the source.

Proof: the document is laid out within its source, and in such a document the last part of the
walk around a byte is below all others around it. -/
theorem innermost_part_found (source name : String) (imports : Imports) (config : Config)
    (offset : Nat) :
    let d := (analyze source name imports config).document
    (d.partAt? offset = none ↔ source.utf8ByteSize ≤ offset)
      ∧ ∀ found, d.partAt? offset = some found ↔ d.InnermostAt offset found := by
  intro d
  have laid : d.Laid source.utf8ByteSize := analyze_laid source name imports config
  exact ⟨laid.partAt?_eq_none_iff, fun found => laid.partAt?_eq_some_iff⟩

end MessageSchema
