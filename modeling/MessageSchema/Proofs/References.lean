import Mathlib.Data.List.Sort
import MessageSchema.Proofs.Headings

/-!
# References from every entry point

The references to a type can be asked for at any of them, and at the name under which the
type is declared. The answer has to be the same everywhere: the places of all references
that stand for this declaration, in the order of the source.

A place of a reference is known to be about the reference, since nothing is below it. A
place in the name of a message or enum is known to be about the declaration, since what
is below it stands behind the name. From the name the declaration is then searched for
again, and the search ends at the first declaration of that name. It is the one that
references of the document stand for as well.
-/

namespace MessageSchema

namespace Document

/-- A list of the places of all references that stand for a declaration, in the order of
the source and without repetitions. -/
structure ListsReferences (d : Document) (id : DeclId) (places : List Span) : Prop where
  exact : ∀ s, s ∈ places ↔ ∃ t ∈ d.typeRefs, t.resolution = .declaration id ∧ t.span = s
  ascending : places.Pairwise fun a b => a.start < b.start
  distinct : places.Nodup

variable {d : Document} {length offset : Nat} {id : DeclId}

/-- There is only one such list. -/
theorem ListsReferences.eq {first second : List Span} (one : d.ListsReferences id first)
    (other : d.ListsReferences id second) : first = second := by
  have antisymm : Std.Antisymm fun a b : Span => a.start < b.start :=
    ⟨fun a b less more => absurd less (Nat.lt_asymm more)⟩
  have irrefl : Std.Irrefl fun a b : Span => a.start < b.start := ⟨fun a => Nat.lt_irrefl _⟩
  apply one.ascending.eq_of_mem_iff other.ascending
  intro s
  rw [one.exact, other.exact]

namespace Laid

/-- The references of a document follow one another. -/
theorem typeRefs_apart (laid : d.Laid length) :
    d.typeRefs.Pairwise fun a b => a.span.stop ≤ b.span.start := by
  have walked : d.walk.Pairwise Part.Precedes := (Part.document d).walk_pairwise laid.parts
  rw [typeRefs_eq_walk]
  apply List.pairwise_filterMap.mpr
  refine walked.imp ?_
  intro p q precedes a first b second
  cases p <;> cases first
  cases q <;> cases second
  rcases precedes with ⟨child, member, -⟩ | apart
  · exact absurd member List.not_mem_nil
  · exact apart

/-- What is told at a place that is about a declaration. -/
theorem referencesAt_of_target (laid : d.Laid length)
    (wide : ∀ t ∈ d.typeRefs, t.span.start < t.span.stop) (target : d.targetAt? offset = some id) :
    d.ListsReferences id (d.referencesAt offset) := by
  have told : d.referencesAt offset
      = (d.typeRefs.filter (·.resolution = .declaration id)).map (·.span) := by
    rw [referencesAt, target]
  have ascending : (d.referencesAt offset).Pairwise fun a b => a.start < b.start := by
    rw [told]
    apply List.pairwise_map.mpr
    refine (laid.typeRefs_apart.filter _).imp_of_mem ?_
    intro a b first second apart
    exact Nat.lt_of_lt_of_le (wide a (List.mem_filter.mp first).1) apart
  refine ⟨fun s => ?_, ascending, ascending.imp fun less => ?_⟩
  · rw [told]
    simp [and_assoc]
  · rintro rfl
    exact Nat.lt_irrefl _ less

/-- A place in a reference is about what the reference stands for. -/
theorem targetAt?_of_typeRef (laid : d.Laid length) {t : TypeRef} (member : t ∈ d.typeRefs)
    (stands : t.resolution = .declaration id) (here : t.span.containsOffset offset = true) :
    d.targetAt? offset = some id := by
  rw [targetAt?, laid.partAt?_of_typeRef member here, Option.bind_some]
  simp only [stands]

/-- A place in the name of a type is about the first type of this name. -/
theorem targetAt?_of_name (laid : d.Laid length) (headed : ∀ p ∈ d.walk, p.Headed)
    {declaration : Declaration} (member : declaration ∈ d.declarations)
    (type : declaration.isType = true) (here : declaration.nameSpan.containsOffset offset = true) :
    d.targetAt? offset = d.findType? declaration.name := by
  cases declaration with
  | importing i => cases type
  | message m =>
    have part : .message m ∈ d.walk := mem_walk member List.mem_cons_self
    rw [targetAt?, laid.partAt?_of_name (mem_walk_iff.mp part) (headed _ part) rfl here]
    exact if_pos here
  | enum e =>
    have part : .enum e ∈ d.walk := mem_walk member List.mem_cons_self
    rw [targetAt?, laid.partAt?_of_name (mem_walk_iff.mp part) (headed _ part) rfl here]
    exact if_pos here

end Laid

end Document

/-- The references that are found do not depend on where they are asked for. At a
reference they are those that stand for the same declaration, itself among them, and the
answer is the same at all of them. At the name of a type, if no earlier type has that
name, they are those that stand for the type.

Proof: at a byte of a reference the innermost part is that reference, and at a byte of a name it
is the named part, as names stand in front and have width. So the declaration that is asked for
is the same, and the listed references are told by the declaration alone. -/
theorem references_consistent (source name : String) (imports : Imports) (config : Config) :
    let d := (analyze source name imports config).document
    (∀ t ∈ d.typeRefs, ∀ id, t.resolution = .declaration id →
        ∀ offset, t.span.containsOffset offset = true →
        d.ListsReferences id (d.referencesAt offset) ∧ t.span ∈ d.referencesAt offset
          ∧ ∀ s ∈ d.referencesAt offset, ∀ other, s.containsOffset other = true →
            d.referencesAt other = d.referencesAt offset)
      ∧ ∀ declared id, d.Declares declared id →
        ∃ declaration, d.declaration? id = some declaration
          ∧ ∀ offset, declaration.nameSpan.containsOffset offset = true →
            d.ListsReferences id (d.referencesAt offset) := by
  intro d
  have laid : d.Laid source.utf8ByteSize := analyze_laid source name imports config
  have headed : ∀ p ∈ d.walk, p.Headed := analyze_headed source name imports config
  have wide : ∀ t ∈ d.typeRefs, t.span.start < t.span.stop := fun t => analyze_typeRefs_wide
  have listed : ∀ t ∈ d.typeRefs, ∀ id, t.resolution = .declaration id →
      ∀ offset, t.span.containsOffset offset = true →
      d.ListsReferences id (d.referencesAt offset) := by
    intro t member id stands offset here
    exact laid.referencesAt_of_target wide (laid.targetAt?_of_typeRef member stands here)
  constructor
  · intro t member id stands offset here
    have lists := listed t member id stands offset here
    refine ⟨lists, (lists.exact t.span).mpr ⟨t, member, stands, rfl⟩, ?_⟩
    intro s among other there
    obtain ⟨u, reference, same, rfl⟩ := (lists.exact s).mp among
    exact (listed u reference id same other there).eq lists
  · intro declared id declares
    obtain ⟨declaration, there, kind, named⟩ := declares.place
    refine ⟨declaration, ?_, fun offset here => ?_⟩
    · rw [Document.declaration?, if_pos declares.owner, there]
    · have type : declaration.isType = true := by rw [Declaration.isType, kind]; rfl
      have target := laid.targetAt?_of_name headed (List.mem_of_getElem? there) type here
      rw [named, Document.findType?_eq_some_iff.mpr declares] at target
      exact laid.referencesAt_of_target wide target

/-- Two references to an enum, one of them in a message without a name, where a field
breaks off. The message that follows repeats the name of the enum. -/
def kindSource : String :=
  "enum Kind \x7b \x7d\nmessage \x7b field kind: Kind = 1; field \x7d\n"
    ++ "message Kind \x7b field other: Kind = 2; \x7d"

/-- The two references are found at the first of them, at the second and at the name of
the enum. -/
theorem kindSource_references :
    let d := (analyze kindSource "main" .empty .standard).document
    let places : List Span := [⟨36, 40, 2, 23⟩, ⟨82, 86, 3, 29⟩]
    d.ListsReferences ⟨"main", 0, .enum⟩ places
      ∧ d.referencesAt 38 = places ∧ d.referencesAt 85 = places ∧ d.referencesAt 5 = places := by
  intro d places
  -- One evaluation of the analysis gives all that is needed of it.
  have evaluated : d.referencesAt 38 = places
      ∧ (∃ t ∈ d.typeRefs, t.resolution = .declaration ⟨"main", 0, .enum⟩
        ∧ t.span.containsOffset 38 = true)
      ∧ d.findType? "Kind" = some ⟨"main", 0, .enum⟩
      ∧ ∀ declaration ∈ d.declaration? ⟨"main", 0, .enum⟩,
        declaration.nameSpan.containsOffset 5 = true := by decide +kernel
  obtain ⟨first, ⟨t, member, stands, here⟩, declared, named⟩ := evaluated
  obtain ⟨reference, name⟩ := references_consistent kindSource "main" .empty .standard
  obtain ⟨lists, -, everywhere⟩ := reference t member _ stands 38 here
  have second : d.referencesAt 85 = d.referencesAt 38 :=
    everywhere ⟨82, 86, 3, 29⟩ (by rw [first]; decide) 85 (by decide)
  obtain ⟨declaration, there, atName⟩ :=
    name "Kind" _ (Document.findType?_eq_some_iff.mp declared)
  have third := (atName 5 (named declaration there)).eq lists
  rw [first] at lists second third
  exact ⟨lists, first, second, third⟩

end MessageSchema
