import Mathlib.Data.List.Nodup
import MessageSchema.Check
import MessageSchema.Proofs.Walks

/-!
# What silent checks say

Each check of a resolved document is silent exactly where something is sound:
names, tags and values that do not repeat, names that may be used, imports that
were supplied, messages that do not contain themselves. Findings that are only
warnings do not count, so silence is taken to mean that no finding is an error.

Missing names are empty, and the checks of names pass over them; what is said
here of names is said of those that are there.
-/

namespace MessageSchema

/-! ## Silence -/

/-- Nothing in a list of findings makes the document wrong. -/
def Quiet (ds : List Diagnostic) : Prop :=
  ∀ d ∈ ds, d.isError = false

/-- Two lists of findings are silent together exactly if each of them is. -/
theorem quiet_append {first second : List Diagnostic} :
    Quiet (first ++ second) ↔ Quiet first ∧ Quiet second :=
  List.forall_mem_append

/-- What is found member by member is silent exactly if it is for every member. -/
theorem quiet_flatMap {α : Type} {l : List α} {f : α → List Diagnostic} :
    Quiet (l.flatMap f) ↔ ∀ x ∈ l, Quiet (f x) := by
  constructor
  · intro quiet x member d inside
    exact quiet d (List.mem_flatMap.mpr ⟨x, member, inside⟩)
  · intro quiet d inside
    obtain ⟨x, member, here⟩ := List.mem_flatMap.mp inside
    exact quiet x member d here

/-- Sorting findings neither adds an error nor removes one. -/
theorem quiet_sorted {ds : List Diagnostic} : Quiet (Diagnostic.sorted ds) ↔ Quiet ds := by
  constructor
  · intro quiet d member
    exact quiet d ((Diagnostic.sorted_perm ds).mem_iff.mpr member)
  · intro quiet d member
    exact quiet d ((Diagnostic.sorted_perm ds).mem_iff.mp member)

/-- If every finding would be an error, silence means that there is none. -/
theorem quiet_iff_nil {ds : List Diagnostic} (errors : ∀ d ∈ ds, d.isError = true) :
    Quiet ds ↔ ds = [] := by
  constructor
  · intro quiet
    apply List.eq_nil_iff_forall_not_mem.mpr
    intro d member
    exact Bool.noConfusion ((errors d member).symm.trans (quiet d member))
  · rintro rfl
    exact nofun

/-- The same for findings that are made from the members of a list. -/
theorem quiet_map {α : Type} {l : List α} {f : α → Diagnostic}
    (errors : ∀ x, (f x).isError = true) : Quiet (l.map f) ↔ l = [] := by
  rw [quiet_iff_nil, List.map_eq_nil_iff]
  intro d member
  obtain ⟨x, -, rfl⟩ := List.mem_map.mp member
  exact errors x

/-! ## Repetitions -/

section Repeats

variable {α κ : Type} [DecidableEq κ]

/-- No member of a list repeats a key exactly if the keys differ from each other
and from those before the list.

Proof: by induction on the list. A member without a key changes nothing; one with a key is found
exactly if a member before it has the same. -/
theorem repeatsAfter_eq_nil_iff (key? : α → Option κ) (before members : List α) :
    repeatsAfter key? before members = []
      ↔ (members.filterMap key?).Nodup
        ∧ ∀ k ∈ members.filterMap key?, k ∉ before.filterMap key? := by
  induction members generalizing before with
  | nil => simp [repeatsAfter]
  | cons x rest ih =>
    rw [repeatsAfter]
    cases key : key? x with
    | none =>
      rw [List.filterMap_cons_none key]
      simp only [Option.isNone_none, if_true]
      rw [ih (before ++ [x]), List.filterMap_append, List.filterMap_cons_none key,
        List.filterMap_nil, List.append_nil]
    | some k =>
      rw [List.filterMap_cons_some key]
      have earlier : before.find? (fun first => decide (key? first = some k)) = none
          ↔ k ∉ before.filterMap key? := by
        rw [List.find?_eq_none, List.mem_filterMap]
        simp
      cases found : before.find? (fun first => decide (key? first = some k)) with
      | some first =>
        have repeated : k ∈ before.filterMap key? := by
          by_contra absent
          rw [earlier.mpr absent] at found
          exact nomatch found
        constructor
        · exact nofun
        · rintro ⟨-, apart⟩
          exact absurd repeated (apart k List.mem_cons_self)
      | none =>
        have absent := earlier.mp found
        simp only [Option.isNone_some, Bool.false_eq_true, if_false]
        rw [ih (before ++ [x]), List.filterMap_append, List.filterMap_cons_some key]
        simp only [List.filterMap_nil, List.mem_append, List.mem_singleton, List.nodup_cons,
          List.forall_mem_cons]
        constructor
        · rintro ⟨unique, apart⟩
          refine ⟨⟨?_, unique⟩, absent, ?_⟩
          · intro member
            exact apart k member (.inr rfl)
          · intro other member among
            exact apart other member (.inl among)
        · rintro ⟨⟨new, unique⟩, -, apart⟩
          refine ⟨unique, ?_⟩
          rintro other member (among | rfl)
          · exact apart other member among
          · exact new member

/-- Nothing repeats exactly if the keys that there are differ from one another. -/
theorem repeats_eq_nil_iff (key? : α → Option κ) (members : List α) :
    repeats key? members = [] ↔ (members.filterMap key?).Nodup := by
  rw [repeats, repeatsAfter_eq_nil_iff]
  simp

end Repeats

/-- Where all names are there, each is its own key. -/
theorem filterMap_nameKey? {α : Type} {name : α → String} {l : List α}
    (named : ∀ x ∈ l, name x ≠ "") : l.filterMap (fun x => nameKey? (name x)) = l.map name := by
  rw [← List.filterMap_eq_map]
  apply List.filterMap_congr
  intro x member
  exact if_neg (named x member)

/-! ## Names, tags and values -/

namespace Check

variable {d : Document}

/-- If no repeated declaration is found, the names of messages and enums differ. -/
theorem duplicateDeclarations_quiet (quiet : Quiet (duplicateDeclarations d)) :
    ((d.declarations.filter Declaration.isType).filterMap (nameKey? ·.name)).Nodup :=
  (repeats_eq_nil_iff _ _).mp ((quiet_map fun _ => rfl).mp (quiet_append.mp quiet).1)

/-- If no repeated field is found, the fields of each message have different names. -/
theorem duplicateFieldNames_quiet (quiet : Quiet (duplicateFieldNames d)) {m : Message}
    (member : m ∈ d.messages) : (m.fields.filterMap (nameKey? ·.name)).Nodup :=
  (repeats_eq_nil_iff _ _).mp ((quiet_map fun _ => rfl).mp (quiet_flatMap.mp quiet m member))

/-- If no repeated variant is found, the variants of each enum have different names. -/
theorem duplicateVariantNames_quiet (quiet : Quiet (duplicateVariantNames d)) {e : Enum}
    (member : e ∈ d.enums) : (e.variants.filterMap (nameKey? ·.name)).Nodup :=
  (repeats_eq_nil_iff _ _).mp ((quiet_map fun _ => rfl).mp (quiet_flatMap.mp quiet e member))

/-- A member that repeats a key has a key. -/
theorem key_of_mem_repeatsAfter {α κ : Type} [DecidableEq κ] {key? : α → Option κ}
    {before members : List α} {pair : α × α} (member : pair ∈ repeatsAfter key? before members) :
    (key? pair.1).isSome = true := by
  induction members generalizing before with
  | nil => exact absurd member List.not_mem_nil
  | cons x rest ih =>
    rw [repeatsAfter] at member
    cases key : key? x with
    | none =>
      simp only [key, Option.isNone_none, if_true] at member
      exact ih member
    | some k =>
      simp only [key, Option.isNone_some, Bool.false_eq_true, if_false] at member
      split at member
      · rcases List.mem_cons.mp member with rfl | later
        · simp [key]
        · exact ih later
      · exact ih member

/-- A tag that was given before is always reported, at the field that gives it again. -/
theorem tagReused_of_tag {m : Message} {again first : Field} {tag : UInt32}
    (given : again.tag = some tag) : tagReused m again first
      = some ⟨.duplicateFieldTag m.name tag.toNat first.name, again.span⟩ := by
  simp only [tagReused, given, Option.map_some]

/-- The value of a variant counts where it is known with its place. -/
theorem placedValue?_eq_some_iff {v : Variant} {value : Int64} :
    placedValue? v = some value ↔ v.value = some value ∧ ∃ span, v.valueSpan = some span := by
  rw [placedValue?, ← Option.isSome_iff_exists]
  split
  · next placed => simp [placed]
  · next unplaced => simp [unplaced]

/-- A value that was given before is reported at the place of the value. -/
theorem valueReused_of_placed {e : Enum} {again first : Variant} {value : Int64} {span : Span}
    (given : again.value = some value) (place : again.valueSpan = some span) :
    valueReused e again first
      = some ⟨.duplicateEnumValue e.name value.toInt first.name, span⟩ := by
  simp only [valueReused, given, place]

/-- A repeated tag is always reported: the field that repeats it has it. -/
theorem duplicateFieldTags_quiet (quiet : Quiet (duplicateFieldTags d)) {m : Message}
    (member : m ∈ d.messages) : (m.fields.filterMap (·.tag)).Nodup := by
  apply (repeats_eq_nil_iff _ _).mp
  have silent := quiet_flatMap.mp quiet m member
  apply List.eq_nil_iff_forall_not_mem.mpr
  rintro ⟨again, first⟩ inside
  obtain ⟨tag, given⟩ : ∃ tag, again.tag = some tag :=
    Option.isSome_iff_exists.mp (key_of_mem_repeatsAfter inside)
  exact Bool.noConfusion
    (silent _ (List.mem_filterMap.mpr ⟨(again, first), inside, tagReused_of_tag given⟩))

/-- If no repeated value is found, the variants of each enum have different values, as far as
they have any. -/
theorem duplicateEnumValues_quiet (quiet : Quiet (duplicateEnumValues d)) {e : Enum}
    (member : e ∈ d.enums) : (e.variants.filterMap placedValue?).Nodup := by
  apply (repeats_eq_nil_iff _ _).mp
  have silent := quiet_flatMap.mp quiet e member
  apply List.eq_nil_iff_forall_not_mem.mpr
  rintro ⟨again, first⟩ inside
  obtain ⟨value, placed⟩ : ∃ value, placedValue? again = some value :=
    Option.isSome_iff_exists.mp (key_of_mem_repeatsAfter inside)
  obtain ⟨given, span, place⟩ := placedValue?_eq_some_iff.mp placed
  exact Bool.noConfusion (silent _
    (List.mem_filterMap.mpr ⟨(again, first), inside, valueReused_of_placed given place⟩))

/-! ## Names that may be used -/

/-- If no reserved name is found, no type has the name of a builtin, and no name of a
declaration or of its members is reserved. Whatever is found there is an error, so silence means
that nothing was found at all. -/
theorem reservedIdentifiers_quiet {config : Config} (quiet : Quiet (reservedIdentifiers config d))
    {declaration : Declaration} (member : declaration ∈ d.declarations) :
    (declaration.isType = true →
        config.isBuiltin declaration.name = false ∧ config.isReserved declaration.name = false)
      ∧ ∀ part ∈ memberNames declaration, config.isReserved part.1 = false := by
  have none_found := (quiet_map fun _ => rfl).mp quiet
  rw [List.flatMap_eq_nil_iff] at none_found
  obtain ⟨own, parts⟩ := List.append_eq_nil_iff.mp (none_found declaration member)
  constructor
  · intro isType
    simpa [isType] using own
  · intro part inside
    have usable := List.filter_eq_nil_iff.mp parts part inside
    simpa using usable

/-! ## Imports -/

/-- A name that is judged is judged at its first place. -/
theorem exists_firstImports {l : List Import} {i : Import} (member : i ∈ l) :
    ∃ first ∈ firstImports l, first.name = i.name := by
  induction l with
  | nil => exact absurd member List.not_mem_nil
  | cons head rest ih =>
    rw [firstImports]
    by_cases same : head.name = i.name
    · exact ⟨head, List.mem_cons_self, same⟩
    · rcases List.mem_cons.mp member with rfl | inside
      · exact absurd rfl same
      · obtain ⟨first, found, name⟩ := ih inside
        refine ⟨first, List.mem_cons_of_mem _ (List.mem_filter.mpr ⟨found, ?_⟩), name⟩
        rw [name]
        exact decide_eq_true (Ne.symm same)

/-- The first imports of each name are among the imports. -/
theorem firstImports_subset {l : List Import} : ∀ i ∈ firstImports l, i ∈ l := by
  induction l with
  | nil => exact fun _ member => absurd member List.not_mem_nil
  | cons head rest ih =>
    intro i member
    rcases List.mem_cons.mp member with rfl | inside
    · exact List.mem_cons_self
    · exact List.mem_cons_of_mem _ (ih i (List.mem_filter.mp inside).1)

/-- Silence about imports covers every import with a name, if imports of one name
have one status. -/
theorem imports_quiet (quiet : Quiet (Check.imports d))
    (uniform : ∀ i ∈ d.imports, ∀ j ∈ d.imports, i.name = j.name → i.status ≠ .recovered →
      j.status ≠ .recovered → i.status = j.status)
    {i : Import} (member : i ∈ d.imports) (named : i.name ≠ "") (trusted : i.status ≠ .recovered) :
    i.status ≠ .missing := by
  have judged : i ∈ judgedImports d := List.mem_filter.mpr ⟨member, by simp [named, trusted]⟩
  obtain ⟨first, found, name⟩ := exists_firstImports judged
  obtain ⟨among, kept⟩ := List.mem_filter.mp (firstImports_subset first found)
  have firstTrusted : first.status ≠ .recovered := by
    simp only [Bool.and_eq_true, decide_eq_true_eq] at kept
    exact kept.2
  rw [← uniform first among i member name firstTrusted trusted]
  intro missing
  have reported : (⟨.unknownImport first.name, first.nameSpan⟩ : Diagnostic) ∈ Check.imports d := by
    refine List.mem_filterMap.mpr ⟨first, found, ?_⟩
    rw [importFinding?, missing]
  exact Bool.noConfusion (quiet _ reported)

/-! ## Messages that contain themselves -/

end Check

/-- The message at index `i` holds the message at index `j` of the same document
outright: a field that is neither optional nor repeated has it as its type. -/
def Document.Holds (d : Document) (i j : Nat) : Prop :=
  ∃ m, d.declarations[i]? = some (.message m) ∧ ∃ f ∈ m.fields,
    f.modifier.any Modifier.isIndirect = false
      ∧ ∃ t, f.typeRef = some t ∧ t.resolution = .declaration ⟨d.name, j, .message⟩

namespace Check

variable {d : Document}

/-- A message is listed under an index exactly if it is the declaration at that index. -/
theorem mem_indexedMessages_iff {i : Nat} {m : Message} :
    (i, m) ∈ indexedMessages d ↔ d.declarations[i]? = some (.message m) := by
  unfold indexedMessages
  rw [List.mem_filterMap]
  constructor
  · rintro ⟨⟨declaration, index⟩, place, same⟩
    obtain ⟨other, isMessage, pair⟩ := Option.map_eq_some_iff.mp same
    obtain ⟨rfl, rfl⟩ := Prod.mk.inj pair
    rw [List.mem_zipIdx_iff_getElem?] at place
    cases declaration with
    | message content =>
      cases isMessage
      exact place
    | importing target => exact nomatch isMessage
    | enum content => exact nomatch isMessage
  · intro place
    exact ⟨(.message m, i), List.mem_zipIdx_iff_getElem?.mpr place, rfl⟩

/-- The indices of messages are indices of declarations, in order. -/
theorem indexedMessages_sublist (d : Document) :
    ((indexedMessages d).map Prod.fst).Sublist (d.declarations.zipIdx.map Prod.snd) := by
  unfold indexedMessages
  induction d.declarations.zipIdx with
  | nil => exact List.Sublist.refl _
  | cons pair rest ih =>
    obtain ⟨declaration, index⟩ := pair
    cases declaration with
    | message m => exact ih.cons_cons index
    | importing i => exact ih.cons index
    | enum e => exact ih.cons index

/-- No message is listed twice. -/
theorem containment_nodup : ((containment d).edges.map Prod.fst).Nodup := by
  have keys : (containment d).edges.map Prod.fst = (indexedMessages d).map Prod.fst := by
    rw [containment, List.map_map]
    rfl
  rw [keys]
  apply (indexedMessages_sublist d).nodup
  rw [List.zipIdx_map_snd]
  exact List.nodup_range'

/-- A field whose type is a message of this document, and that neither is optional nor repeats,
holds this message. -/
theorem heldMessage?_of_holds {f : Field} {t : TypeRef} {j : Nat}
    (direct : f.modifier.any Modifier.isIndirect = false) (type : f.typeRef = some t)
    (resolved : t.resolution = .declaration ⟨d.name, j, .message⟩) :
    heldMessage? d f = some j := by
  rw [heldMessage?, direct, type]
  simp [resolved]

/-- A message that holds another one is followed by it in the graph of containment. The graph
lists each message once, so the edges found under its index are its own. -/
theorem mem_successors_of_holds {i j : Nat} (holds : d.Holds i j) :
    j ∈ (containment d).successors i := by
  obtain ⟨m, place, f, member, direct, t, type, resolved⟩ := holds
  have listed : (i, m.fields.filterMap (heldMessage? d)) ∈ (containment d).edges :=
    List.mem_map.mpr ⟨(i, m), mem_indexedMessages_iff.mpr place, rfl⟩
  rw [Graph.successors_of_mem containment_nodup listed]
  exact List.mem_filterMap.mpr ⟨f, member, heldMessage?_of_holds direct type resolved⟩

/-- Silence about circles means that there are none: a circle begins with a field
that holds a message from which the walk comes back. -/
theorem circularTypes_quiet (quiet : Quiet (circularTypes d)) (i : Nat) :
    ¬ Relation.TransGen d.Holds i i := by
  intro circle
  obtain ⟨j, holds, path⟩ := Relation.TransGen.head'_iff.mp circle
  have back : i ∈ (containment d).reachedFrom [] j := by
    rw [Graph.mem_reachedFrom_iff]
    refine ⟨List.not_mem_nil, path.lift id ?_⟩
    intro a b step
    exact ⟨mem_successors_of_holds step, List.not_mem_nil⟩
  obtain ⟨m, place, f, member, direct, t, type, resolved⟩ := holds
  have held := heldMessage?_of_holds direct type resolved
  have circular : f ∈ circularFields d i m := by
    refine List.mem_filter.mpr ⟨member, ?_⟩
    rw [held]
    exact decide_eq_true back
  have silent := quiet_flatMap.mp quiet (i, m) (mem_indexedMessages_iff.mpr place)
  have none_found := (quiet_map fun _ => rfl).mp silent
  rw [none_found] at circular
  exact absurd circular List.not_mem_nil

end Check

end MessageSchema
