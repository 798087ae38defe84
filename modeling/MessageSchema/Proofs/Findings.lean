import MessageSchema.Proofs.Layout
import MessageSchema.Proofs.Soundness

/-!
# Findings stand at places of the document

A document records the places of its parts and of the names, tags and values in
them. Resolution and the checks look at a document without its source, so all they
can point to are those places: every finding of theirs stands at one of them. What is
found about imports stands at the name of one, and everything else inside a type. And
they add no place, for a resolved document records what it recorded before.
-/

namespace MessageSchema

/-! ## The places of a document -/

/-- All places that a part records: its own, and those it names. -/
def Part.places (p : Part) : List Span :=
  p.span :: p.marks

/-- All places that a document records. -/
def Document.places (d : Document) : List Span :=
  d.walk.flatMap Part.places

namespace Document

variable {d : Document}

/-- The places of a part that is walked through are places of the document. -/
theorem mem_places {p : Part} {s : Span} (part : p ∈ d.walk) (place : s ∈ p.places) :
    s ∈ d.places :=
  List.mem_flatMap.mpr ⟨p, part, place⟩

/-- What a declaration consists of is walked through with the document. -/
theorem mem_walk {declaration : Declaration} {p : Part} (member : declaration ∈ d.declarations)
    (part : p ∈ declaration.walk) : p ∈ d.walk :=
  List.mem_cons_of_mem _ (List.mem_flatMap.mpr ⟨declaration, member, part⟩)

/-- The name of an import stands at a place of the document. -/
theorem import_nameSpan_mem {i : Import} (member : i ∈ d.imports) : i.nameSpan ∈ d.places :=
  mem_places (mem_walk (mem_imports.mp member) List.mem_cons_self)
    (List.mem_cons_of_mem _ List.mem_cons_self)

end Document

/-- The places inside a declaration, its own place apart. -/
def Declaration.innerPlaces (declaration : Declaration) : List Span :=
  (declaration.walk.flatMap Part.places).tail

/-- The name of a declaration stands at a place inside it. -/
theorem Declaration.nameSpan_mem (declaration : Declaration) :
    declaration.nameSpan ∈ declaration.innerPlaces := by
  cases declaration <;> exact List.mem_cons_self

/-- A place inside a type that the document declares. -/
def Document.InType (d : Document) (s : Span) : Prop :=
  ∃ declaration ∈ d.declarations, declaration.isType = true ∧ s ∈ declaration.innerPlaces

namespace Document.InType

variable {d : Document} {s : Span}

/-- A place inside a type is one of the document. -/
theorem mem_places (inside : d.InType s) : s ∈ d.places := by
  obtain ⟨declaration, member, -, place⟩ := inside
  obtain ⟨p, part, among⟩ := List.mem_flatMap.mp (List.mem_of_mem_tail place)
  exact Document.mem_places (mem_walk member part) among

/-- The name of a type stands inside the type. -/
theorem of_name {declaration : Declaration} (member : declaration ∈ d.declarations)
    (type : declaration.isType = true) : d.InType declaration.nameSpan :=
  ⟨declaration, member, type, declaration.nameSpan_mem⟩

/-- A field and its type are walked through with their message. -/
theorem of_field {m : Message} {f : Field} {p : Part} (message : m ∈ d.messages)
    (field : f ∈ m.fields) (part : p ∈ f.walk) (place : s ∈ p.places) : d.InType s := by
  refine ⟨.message m, mem_messages.mp message, rfl, List.mem_cons_of_mem _ ?_⟩
  exact List.mem_flatMap.mpr ⟨p, List.mem_flatMap.mpr ⟨f, field, part⟩, place⟩

/-- The name of a field stands inside its message. -/
theorem of_fieldName {m : Message} {f : Field} (message : m ∈ d.messages) (field : f ∈ m.fields) :
    d.InType f.nameSpan :=
  of_field message field List.mem_cons_self (List.mem_cons_of_mem _ List.mem_cons_self)

/-- The type of a field stands inside the message, as the second part of the field. -/
theorem of_typeRef {m : Message} {f : Field} {t : TypeRef} (message : m ∈ d.messages)
    (field : f ∈ m.fields) (type : f.typeRef = some t) : d.InType t.span := by
  have part : .typeRef t ∈ f.walk := by
    refine List.mem_cons_of_mem _ ?_
    rw [Part.children, type]
    exact List.mem_singleton.mpr rfl
  exact of_field message field part List.mem_cons_self

/-- What a variant records stands inside its enum. -/
theorem of_variant {e : Enum} {v : Variant} (enum : e ∈ d.enums) (variant : v ∈ e.variants)
    (place : s ∈ (Part.variant v).places) : d.InType s := by
  refine ⟨.enum e, mem_enums.mp enum, rfl, List.mem_cons_of_mem _ ?_⟩
  exact List.mem_flatMap.mpr ⟨_, List.mem_map_of_mem variant, place⟩

/-- The name of a variant stands inside its enum. -/
theorem of_variantName {e : Enum} {v : Variant} (enum : e ∈ d.enums) (variant : v ∈ e.variants) :
    d.InType v.nameSpan :=
  of_variant enum variant (List.mem_cons_of_mem _ List.mem_cons_self)

end Document.InType

/-! ## The checks -/

/-- A member that repeats a key is a member. -/
theorem fst_mem_of_mem_repeatsAfter {α κ : Type} [DecidableEq κ] {key? : α → Option κ}
    {before members : List α} {pair : α × α} (member : pair ∈ repeatsAfter key? before members) :
    pair.1 ∈ members := by
  induction members generalizing before with
  | nil => exact absurd member List.not_mem_nil
  | cons x rest ih =>
    simp only [repeatsAfter] at member
    split at member
    · exact List.mem_cons_of_mem x (ih member)
    · split at member
      · rcases List.mem_cons.mp member with rfl | later
        · exact List.mem_cons_self
        · exact List.mem_cons_of_mem x (ih later)
      · exact List.mem_cons_of_mem x (ih member)

namespace Check

variable {d : Document} {x : Diagnostic}

/-- Types that are declared again are named inside types. -/
theorem repeatedTypes_inType {pair : Declaration × Declaration}
    (repeated : pair ∈ repeats (nameKey? ·.name) (d.declarations.filter Declaration.isType)) :
    d.InType pair.1.nameSpan := by
  obtain ⟨member, type⟩ := List.mem_filter.mp (fst_mem_of_mem_repeatsAfter repeated)
  exact .of_name member type

/-- A repeated name of a field is found inside a message. -/
theorem duplicateFieldNames_inType (found : x ∈ duplicateFieldNames d) : d.InType x.span := by
  obtain ⟨m, message, inside⟩ := List.mem_flatMap.mp found
  obtain ⟨pair, repeated, rfl⟩ := List.mem_map.mp inside
  exact .of_fieldName message (fst_mem_of_mem_repeatsAfter repeated)

/-- A repeated tag is found at its field, and so inside a message. -/
theorem duplicateFieldTags_inType (found : x ∈ duplicateFieldTags d) : d.InType x.span := by
  obtain ⟨m, message, inside⟩ := List.mem_flatMap.mp found
  obtain ⟨pair, repeated, told⟩ := List.mem_filterMap.mp inside
  obtain ⟨tag, -, rfl⟩ := Option.map_eq_some_iff.mp told
  exact .of_field message (fst_mem_of_mem_repeatsAfter repeated) List.mem_cons_self
    List.mem_cons_self

/-- A repeated name of a variant is found inside an enum. -/
theorem duplicateVariantNames_inType (found : x ∈ duplicateVariantNames d) : d.InType x.span := by
  obtain ⟨e, enum, inside⟩ := List.mem_flatMap.mp found
  obtain ⟨pair, repeated, rfl⟩ := List.mem_map.mp inside
  exact .of_variantName enum (fst_mem_of_mem_repeatsAfter repeated)

/-- A repeated value is found at the place of the value, which its variant records. A value
without a place is not searched for. -/
theorem duplicateEnumValues_inType (found : x ∈ duplicateEnumValues d) : d.InType x.span := by
  obtain ⟨e, enum, inside⟩ := List.mem_flatMap.mp found
  obtain ⟨⟨again, first⟩, repeated, told⟩ := List.mem_filterMap.mp inside
  have reused : valueReused e again first = some x := told
  unfold valueReused at reused
  split at reused
  · next value span given place =>
    cases reused
    have valued : span ∈ (Part.variant again).places := by
      simp [Part.places, Part.marks, place]
    exact .of_variant enum (fst_mem_of_mem_repeatsAfter repeated) valued
  · cases reused

/-- A reserved name is found inside a type: at the name of the type or at that of a member.
An import has no members, and its name is not judged. -/
theorem reservedIdentifiers_inType {config : Config} (found : x ∈ reservedIdentifiers config d) :
    d.InType x.span := by
  obtain ⟨part, named, rfl⟩ := List.mem_map.mp found
  obtain ⟨declaration, member, unusable⟩ := List.mem_flatMap.mp named
  rcases List.mem_append.mp unusable with own | inner
  · split at own
    · next type =>
      rw [List.mem_singleton.mp own]
      exact .of_name member (Bool.and_eq_true_iff.mp type).1
    · exact absurd own List.not_mem_nil
  · have among := (List.mem_filter.mp inner).1
    cases declaration with
    | importing i => exact absurd among List.not_mem_nil
    | message m =>
      obtain ⟨f, field, rfl⟩ := List.mem_map.mp among
      exact .of_fieldName (mem_messages.mpr member) field
    | enum e =>
      obtain ⟨v, variant, rfl⟩ := List.mem_map.mp among
      exact .of_variantName (mem_enums.mpr member) variant

/-- A circle is found at the type of a field, inside the message. Only a field without a type
would be pointed at itself, and such a field holds nothing. -/
theorem circularTypes_inType (found : x ∈ circularTypes d) : d.InType x.span := by
  obtain ⟨⟨index, m⟩, indexed, inside⟩ := List.mem_flatMap.mp found
  obtain ⟨f, circular, rfl⟩ := List.mem_map.mp inside
  have message : m ∈ d.messages :=
    mem_messages.mpr (List.mem_of_getElem? (mem_indexedMessages_iff.mp indexed))
  have field := (List.mem_filter.mp circular).1
  cases type : f.typeRef with
  | none =>
    rw [circularFinding, type]
    exact .of_field message field List.mem_cons_self List.mem_cons_self
  | some t =>
    rw [circularFinding, type]
    exact .of_typeRef message field type

/-- A judged import that is found wrong is named there. -/
theorem exists_judged_of_imports (found : x ∈ imports d) :
    ∃ i ∈ judgedImports d, x.span = i.nameSpan := by
  obtain ⟨i, first, told⟩ := List.mem_filterMap.mp found
  refine ⟨i, firstImports_subset i first, ?_⟩
  unfold importFinding? at told
  split at told
  · cases told
    rfl
  · cases told
    rfl
  · cases told
  · cases told
  · cases told

end Check

/-- Every finding of a check stands at a place of the document. -/
theorem validationFindings_mem {config : Config} {d : Document} {x : Diagnostic}
    (found : x ∈ validationFindings config d) : x.span ∈ d.places := by
  simp only [validationFindings, Check.findingsOf, Check.all, List.flatMap_cons, List.flatMap_nil,
    List.append_nil, Check.duplicateDeclarations, List.mem_append, List.mem_map] at found
  rcases found with (⟨pair, type, rfl⟩ | ⟨pair, again, rfl⟩) | f | f | f | f | f | f | f
  · exact (Check.repeatedTypes_inType type).mem_places
  · exact Document.import_nameSpan_mem (fst_mem_of_mem_repeatsAfter again)
  · exact (Check.duplicateFieldNames_inType f).mem_places
  · exact (Check.duplicateFieldTags_inType f).mem_places
  · exact (Check.duplicateVariantNames_inType f).mem_places
  · exact (Check.duplicateEnumValues_inType f).mem_places
  · exact (Check.reservedIdentifiers_inType f).mem_places
  · exact (Check.circularTypes_inType f).mem_places
  · obtain ⟨i, judged, place⟩ := Check.exists_judged_of_imports f
    exact place ▸ Document.import_nameSpan_mem (List.mem_filter.mp judged).1

/-! ## Resolution -/

namespace Scope

variable (scope : Scope) (d : Document)

variable {d} in
/-- A reference that stands for nothing is written inside a message. -/
theorem unresolvedRefs_inType {t : TypeRef} (unresolved : t ∈ scope.unresolvedRefs d) :
    d.InType t.span := by
  obtain ⟨f, field, type⟩ := List.mem_filterMap.mp (List.mem_filter.mp unresolved).1
  obtain ⟨m, message, inside⟩ := List.mem_flatMap.mp field
  exact .of_typeRef message inside type

/-- Every finding of resolution stands at a place of the document. -/
theorem findings_mem {x : Diagnostic} (found : x ∈ scope.findings d) : x.span ∈ d.places := by
  rcases List.mem_append.mp found with cycle | missing
  · obtain ⟨i, cyclic, rfl⟩ := List.mem_map.mp cycle
    exact Document.import_nameSpan_mem (List.mem_filter.mp cyclic).1
  · obtain ⟨t, unresolved, rfl⟩ := List.mem_map.mp missing
    exact (scope.unresolvedRefs_inType unresolved).mem_places

/-- A field records the same places when it is resolved. -/
theorem places_resolveField (f : Field) :
    (scope.resolveField f).walk.flatMap Part.places = f.walk.flatMap Part.places := by
  cases type : f.typeRef <;> simp [Field.walk, Part.children, resolveField, type, Part.places,
    Part.span, Part.marks, resolveRef]

/-- A declaration records the same places when it is resolved: its fields do, and resolution
touches nothing else that has a place. -/
theorem places_resolveDeclaration (used : List String) (declaration : Declaration) :
    (scope.resolveDeclaration used declaration).walk.flatMap Part.places
      = declaration.walk.flatMap Part.places := by
  cases declaration with
  | importing i => rfl
  | message m =>
    have fields : ((m.fields.map scope.resolveField).flatMap Field.walk).flatMap Part.places
        = (m.fields.flatMap Field.walk).flatMap Part.places := by
      rw [List.flatMap_assoc, List.flatMap_assoc, List.flatMap_map]
      exact List.flatMap_congr fun f _ => scope.places_resolveField f
    exact congrArg ((Part.message m).places ++ ·) fields
  | enum e => rfl

/-- Resolution records no places of its own. -/
theorem places_resolveDocument : (scope.resolveDocument d).places = d.places := by
  have declarations : ((scope.resolveDocument d).declarations.flatMap Declaration.walk).flatMap
      Part.places = (d.declarations.flatMap Declaration.walk).flatMap Part.places := by
    rw [resolveDocument, List.flatMap_assoc, List.flatMap_assoc, List.flatMap_map]
    exact List.flatMap_congr fun e _ => scope.places_resolveDeclaration _ e
  exact congrArg (d.span :: ·) declarations

end Scope

/-! ## All stages -/

/-- An analysis tells what the stages found, each about the tree or document that it
was given; only the order is its own. -/
theorem analyze_diagnostics_perm (source name : String) (imports : Imports) (config : Config) :
    (analyze source name imports config).diagnostics.Perm
      ((parseSource source).findings ++ (parseSource source).tree.documentFindings
        ++ (resolve ((parseSource source).tree.toDocument name) imports config).findings
        ++ validationFindings config (analyze source name imports config).document) := by
  refine (Diagnostic.sorted_perm _).trans ?_
  refine .append (.append (.append ?_ ?_) ?_) ?_
  · exact Diagnostic.sorted_perm _
  · exact Diagnostic.sorted_perm _
  · exact Diagnostic.sorted_perm _
  · exact Diagnostic.sorted_perm _

end MessageSchema
