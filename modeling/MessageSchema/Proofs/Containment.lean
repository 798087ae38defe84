import Mathlib.Data.List.Forall2
import MessageSchema.Proofs.Checks

/-!
# Circles of containment

A field that is neither optional nor repeated holds its value outright, and where
its type is a message of the same document one message holds another. A field is on
a circle if the message that it holds comes back, through any number of fields, to
the message that the field stands in. Messages can hold each other through several
fields, a field can hold its own message, and a circle can be entered from a message
that is not on it; an index that a field refers to need not be that of a message.

The check finds exactly the fields on circles: one finding for each, at its type, in
the order of the source, and none for a field that merely leads to a circle.
-/

namespace MessageSchema

/-! ## Fields that hold messages -/

/-- A field of a message, with the index of the message among the declarations and
the place of the field among the fields. -/
structure FieldSlot where
  index : Nat
  message : Message
  place : Nat
  field : Field

namespace Document

/-- A slot that is one of the document. -/
structure HasSlot (d : Document) (slot : FieldSlot) : Prop where
  message : d.declarations[slot.index]? = some (.message slot.message)
  field : slot.message.fields[slot.place]? = some slot.field

/-- A field that holds outright the message at index `j` of the document; its type
is `t`. -/
structure HoldsOutright (d : Document) (f : Field) (t : TypeRef) (j : Nat) : Prop where
  direct : f.modifier = none ∨ f.modifier = some .required
  type : f.typeRef = some t
  resolved : t.resolution = .declaration ⟨d.name, j, .message⟩

/-- The message at index `i` holds the message at index `j` outright through its
field at place `k`. -/
def HoldsThrough (d : Document) (i k j : Nat) : Prop :=
  ∃ m f t, d.HasSlot ⟨i, m, k, f⟩ ∧ d.HoldsOutright f t j

/-- The finding about the field at a place, the index of a message and the place
among its fields: it names both and stands at the type. -/
def CircleFinding (d : Document) (place : Nat × Nat) (finding : Diagnostic) : Prop :=
  ∃ m f t, d.HasSlot ⟨place.1, m, place.2, f⟩ ∧ f.typeRef = some t
    ∧ finding = ⟨.circularType m.name f.name, t.span⟩

end Document

/-- A field holds its value outright exactly if it has no modifier or is required. -/
theorem Field.isIndirect_eq_false_iff (f : Field) :
    f.modifier.any Modifier.isIndirect = false ↔ f.modifier = none ∨ f.modifier = some .required := by
  cases f.modifier with
  | none => simp
  | some modifier => cases modifier <;> simp [Modifier.isIndirect]

/-- A message holds another one exactly if it does so through one of its fields. The place of
the field is what the second relation adds. -/
theorem Document.holds_iff {d : Document} {i j : Nat} :
    d.Holds i j ↔ ∃ k, d.HoldsThrough i k j := by
  constructor
  · rintro ⟨m, there, f, member, direct, t, type, resolved⟩
    obtain ⟨k, here⟩ := List.mem_iff_getElem?.mp member
    exact ⟨k, m, f, t, ⟨there, here⟩, f.isIndirect_eq_false_iff.mp direct, type, resolved⟩
  · rintro ⟨k, m, f, t, slot, holds⟩
    exact ⟨m, slot.message, f, List.mem_of_getElem? slot.field,
      f.isIndirect_eq_false_iff.mpr holds.direct, t, holds.type, holds.resolved⟩

namespace Check

variable {d : Document}

/-- The check takes a field to hold the message at an index exactly if the field holds it
outright. The kind and the document of the resolution are compared on the way, so a type of
another document is never taken for one of this document. -/
theorem heldMessage?_eq_some_iff {f : Field} {j : Nat} :
    heldMessage? d f = some j ↔ ∃ t, d.HoldsOutright f t j := by
  constructor
  · intro held
    unfold heldMessage? at held
    split at held
    · cases held
    · next direct =>
      obtain ⟨t, type, held⟩ := Option.bind_eq_some_iff.mp held
      refine ⟨t, f.isIndirect_eq_false_iff.mp (by simpa using direct), type, ?_⟩
      split at held
      · next id resolved =>
        simp only [Bool.and_eq_true, decide_eq_true_eq, Option.ite_none_right_eq_some,
          Option.some.injEq] at held
        obtain ⟨⟨kind, own⟩, rfl⟩ := held
        rw [resolved, ← kind, ← own]
      · cases held
      · cases held
  · rintro ⟨t, direct, type, resolved⟩
    exact heldMessage?_of_holds (f.isIndirect_eq_false_iff.mpr direct) type resolved

/-! ## The graph of the check -/

/-- The graph has an edge exactly where one message holds another. -/
theorem mem_successors_iff {i j : Nat} : j ∈ (containment d).successors i ↔ d.Holds i j := by
  refine ⟨fun follows => ?_, mem_successors_of_holds⟩
  by_cases listed : i ∈ (containment d).edges.map Prod.fst
  · obtain ⟨⟨index, targets⟩, edge, rfl⟩ := List.mem_map.mp listed
    rw [Graph.successors_of_mem containment_nodup edge] at follows
    obtain ⟨⟨_, m⟩, member, same⟩ := List.mem_map.mp edge
    obtain ⟨rfl, rfl⟩ := Prod.mk.inj same
    obtain ⟨f, among, held⟩ := List.mem_filterMap.mp follows
    obtain ⟨t, holds⟩ := heldMessage?_eq_some_iff.mp held
    exact ⟨m, mem_indexedMessages_iff.mp member, f, among,
      f.isIndirect_eq_false_iff.mpr holds.direct, t, holds.type, holds.resolved⟩
  · rw [Graph.successors_of_not_mem listed] at follows
    exact absurd follows List.not_mem_nil

/-- From a message the walk of the check comes to those that it holds, through any number of
messages. The message itself is among them, since the walk begins there. -/
theorem mem_reachedFrom_iff {i j : Nat} :
    i ∈ (containment d).reachedFrom [] j ↔ Relation.ReflTransGen d.Holds j i := by
  simp only [Graph.mem_reachedFrom_nil_iff, mem_successors_iff]

/-! ## The fields that are looked at -/

/-- The fields of a document, message by message. -/
def slots (d : Document) : List FieldSlot :=
  (indexedMessages d).flatMap fun (index, m) =>
    m.fields.zipIdx.map fun (f, place) => ⟨index, m, place, f⟩

/-- The fields that the check goes through are those of the messages of the document, each with
its index and its place. -/
theorem mem_slots_iff {slot : FieldSlot} : slot ∈ slots d ↔ d.HasSlot slot := by
  unfold slots
  rw [List.mem_flatMap]
  constructor
  · rintro ⟨⟨index, m⟩, member, inside⟩
    obtain ⟨⟨f, place⟩, among, rfl⟩ := List.mem_map.mp inside
    exact ⟨mem_indexedMessages_iff.mp member, List.mem_zipIdx_iff_getElem?.mp among⟩
  · rintro ⟨there, here⟩
    refine ⟨(slot.index, slot.message), mem_indexedMessages_iff.mpr there, ?_⟩
    exact List.mem_map.mpr ⟨(slot.field, slot.place), List.mem_zipIdx_iff_getElem?.mpr here, rfl⟩

/-- The fields come in the order of the source, each once.

Proof: the messages come with ascending numbers, and in each message the places of its fields
ascend. -/
theorem slots_ordered (d : Document) :
    ((slots d).map fun slot => (slot.index, slot.place)).Pairwise (Prod.Lex (· < ·) (· < ·)) := by
  have indices : (indexedMessages d).Pairwise fun a b => a.1 < b.1 := by
    apply List.pairwise_map.mp
    apply List.Pairwise.sublist (indexedMessages_sublist d)
    rw [List.zipIdx_map_snd]
    exact List.pairwise_lt_range'
  have places (m : Message) : m.fields.zipIdx.Pairwise fun a b => a.2 < b.2 := by
    apply List.pairwise_map.mp
    rw [List.zipIdx_map_snd]
    exact List.pairwise_lt_range'
  rw [List.pairwise_map]
  refine List.pairwise_flatMap.mpr ⟨?_, indices.imp ?_⟩
  · rintro ⟨index, m⟩ _
    refine List.pairwise_map.mpr ((places m).imp ?_)
    rintro ⟨f, k⟩ ⟨g, l⟩ less
    exact Prod.Lex.right _ less
  · rintro ⟨i, m⟩ ⟨j, other⟩ less a inFirst b inSecond
    obtain ⟨_, _, rfl⟩ := List.mem_map.mp inFirst
    obtain ⟨_, _, rfl⟩ := List.mem_map.mp inSecond
    exact Prod.Lex.left _ _ less

/-- The slots whose fields the check finds. -/
def circularSlots (d : Document) : List FieldSlot :=
  (slots d).filter fun slot =>
    (heldMessage? d slot.field).any fun held => slot.index ∈ (containment d).reachedFrom [] held

/-- A field is found to be on a circle exactly if the message that it holds leads back to the
message that it stands in. The walk begins at the held message, so a message that holds itself
is found too. -/
theorem mem_circularSlots_iff {slot : FieldSlot} :
    slot ∈ circularSlots d
      ↔ d.HasSlot slot ∧ ∃ j t, d.HoldsOutright slot.field t j
        ∧ Relation.ReflTransGen d.Holds j slot.index := by
  simp only [circularSlots, List.mem_filter, mem_slots_iff, Option.any_eq_true, decide_eq_true_eq,
    mem_reachedFrom_iff, heldMessage?_eq_some_iff, exists_and_right]

/-- The check goes through the fields one by one. -/
theorem circularTypes_eq (d : Document) :
    circularTypes d
      = (circularSlots d).map fun slot => circularFinding slot.message slot.field := by
  rw [circularTypes, circularSlots, slots, List.filter_flatMap, List.map_flatMap]
  apply List.flatMap_congr
  rintro ⟨index, m⟩ _
  have fields := List.zipIdx_map_fst 0 m.fields
  have chosen : circularFields d index m = (m.fields.zipIdx.filter fun (f, _) =>
      (heldMessage? d f).any fun held => index ∈ (containment d).reachedFrom [] held).map
        Prod.fst := by
    rw [circularFields, ← fields, List.filter_map, fields]
    rfl
  show (circularFields d index m).map (circularFinding m) = _
  rw [chosen, List.filter_map, List.map_map, List.map_map]
  rfl

/-- A message contains itself exactly if one of its fields is on a circle. -/
theorem circularTypes_eq_nil_iff (d : Document) :
    circularTypes d = [] ↔ ∀ i, ¬ Relation.TransGen d.Holds i i := by
  constructor
  · intro silent
    apply circularTypes_quiet
    rw [silent]
    exact List.forall_mem_nil _
  · intro acyclic
    rw [circularTypes_eq, List.map_eq_nil_iff]
    apply List.eq_nil_iff_forall_not_mem.mpr
    intro slot among
    obtain ⟨there, j, t, holds, back⟩ := mem_circularSlots_iff.mp among
    have first : d.Holds slot.index j :=
      Document.holds_iff.mpr ⟨slot.place, slot.message, slot.field, t, there, holds⟩
    exact acyclic slot.index (Relation.TransGen.head' first back)

end Check

/-- The check finds exactly the fields on circles. There is one finding for each field
that holds a message from which containment leads back to its own message, in the
order of the source, and none for any other; so there are no findings exactly if no
message contains itself.

Proof: the findings are made from the slots of the document, filtered by whether the held
message leads back, and the slots come in the order of the source. No field is on a circle
exactly if no message contains itself, since a circle passes through some field. -/
theorem circularTypes_exact (d : Document) :
    (∃ places : List (Nat × Nat),
      places.Pairwise (Prod.Lex (· < ·) (· < ·))
        ∧ (∀ i k, (i, k) ∈ places
          ↔ ∃ j, d.HoldsThrough i k j ∧ Relation.ReflTransGen d.Holds j i)
        ∧ List.Forall₂ d.CircleFinding places (Check.circularTypes d))
      ∧ (Check.circularTypes d = [] ↔ ∀ i, ¬ Relation.TransGen d.Holds i i) := by
  constructor
  · refine ⟨(Check.circularSlots d).map fun slot => (slot.index, slot.place), ?_, ?_, ?_⟩
    · exact (Check.slots_ordered d).sublist (List.filter_sublist.map _)
    · intro i k
      rw [List.mem_map]
      constructor
      · rintro ⟨slot, among, same⟩
        obtain ⟨rfl, rfl⟩ := Prod.mk.inj same
        obtain ⟨there, j, t, holds, back⟩ := Check.mem_circularSlots_iff.mp among
        exact ⟨j, ⟨slot.message, slot.field, t, there, holds⟩, back⟩
      · rintro ⟨j, ⟨m, f, t, there, holds⟩, back⟩
        exact ⟨⟨i, m, k, f⟩, Check.mem_circularSlots_iff.mpr ⟨there, j, t, holds, back⟩, rfl⟩
    · rw [Check.circularTypes_eq, List.forall₂_map_left_iff, List.forall₂_map_right_iff,
        List.forall₂_same]
      intro slot among
      obtain ⟨there, j, t, holds, -⟩ := Check.mem_circularSlots_iff.mp among
      refine ⟨slot.message, slot.field, t, there, holds.type, ?_⟩
      rw [Check.circularFinding, holds.type, Option.map_some, Option.getD_some]
  · exact Check.circularTypes_eq_nil_iff d

end MessageSchema
