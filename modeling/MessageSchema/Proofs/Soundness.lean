import MessageSchema.Analysis
import MessageSchema.Proofs.Checks
import MessageSchema.Proofs.Denotation
import MessageSchema.Proofs.Recognition
import MessageSchema.Proofs.Streams

/-!
# A clean analysis is sound

Every stage is silent in some places: where something was skipped, where a token
carries a fault, where a name is missing, where an import is malformed. The main
statement says that each such silence is backed by a report of another stage. If
an analysis reports no error, then the text is a word of the grammar without
faults, and the document that comes out of it is sound: everything has its name,
type and value, every reference is resolved, nothing is declared twice, no name
is reserved, and no message contains itself.

The stages are taken one after the other. Without errors of the first stage the
tree is made of phrases; from silent findings about phrases follows what a built
document has; what resolution and the checks add is stated of any document.
-/

namespace MessageSchema

open Phrase

/-! ## Sound documents -/

/-- A field that can be used: it has a name that is not reserved, a type that stands for
something, and a tag wherever a number was written for one. -/
structure Field.Sound (config : Config) (f : Field) : Prop where
  named : f.name ≠ ""
  typed : ∃ t, f.typeRef = some t ∧ t.resolution ≠ .unresolved
  tagged : f.tagSpan.isSome = true → f.tag.isSome = true
  permitted : config.isReserved f.name = false

/-- A message that can be used: its name is neither that of a builtin nor reserved, and its
fields can be used and differ in names and tags. -/
structure Message.Sound (config : Config) (m : Message) : Prop where
  named : m.name ≠ ""
  permitted : config.isBuiltin m.name = false ∧ config.isReserved m.name = false
  fields : ∀ f ∈ m.fields, f.Sound config
  fieldNames : (m.fields.map (·.name)).Nodup
  tags : (m.fields.filterMap (·.tag)).Nodup

/-- A variant that can be used: it has a name that is not reserved, and a value. -/
structure Variant.Sound (config : Config) (v : Variant) : Prop where
  named : v.name ≠ ""
  valued : v.value.isSome = true
  permitted : config.isReserved v.name = false

/-- An enum that can be used: its name is neither that of a builtin nor reserved, and its
variants can be used and differ in names and values. -/
structure Enum.Sound (config : Config) (e : Enum) : Prop where
  named : e.name ≠ ""
  permitted : config.isBuiltin e.name = false ∧ config.isReserved e.name = false
  variants : ∀ v ∈ e.variants, v.Sound config
  variantNames : (e.variants.map (·.name)).Nodup
  values : (e.variants.map (·.value)).Nodup

/-- An import that can be used: it has a name, and a document is supplied under it. -/
structure Import.Sound (i : Import) : Prop where
  named : i.name ≠ ""
  found : ∃ used, i.status = .found used

/-- A document whose every part can be used. -/
structure Document.Sound (config : Config) (d : Document) : Prop where
  imports : ∀ i ∈ d.imports, i.Sound
  messages : ∀ m ∈ d.messages, m.Sound config
  enums : ∀ e ∈ d.enums, e.Sound config
  typeNames : ((d.declarations.filter Declaration.isType).map (·.name)).Nodup
  acyclic : ∀ i, ¬ Relation.TransGen d.Holds i i

/-! ## Complete declarations -/

/-- What a field has before references are resolved. -/
structure Field.Complete (f : Field) : Prop where
  named : f.name ≠ ""
  typed : f.typeRef.isSome = true
  tagged : f.tagSpan.isSome = true → f.tag.isSome = true

/-- What a variant has before references are resolved. The place of its value is needed for the
check of values, which passes over variants without it. -/
structure Variant.Complete (v : Variant) : Prop where
  named : v.name ≠ ""
  valued : v.value.isSome = true
  placed : v.valueSpan.isSome = true

/-- What a declaration has before references are resolved. -/
inductive Declaration.Complete : Declaration → Prop
  | importing {i : Import} (named : i.name ≠ "") (trusted : i.status = .unchecked) :
      Complete (.importing i)
  | message {m : Message} (named : m.name ≠ "") (fields : ∀ f ∈ m.fields, f.Complete) :
      Complete (.message m)
  | enum {e : Enum} (named : e.name ≠ "") (variants : ∀ v ∈ e.variants, v.Complete) :
      Complete (.enum e)

namespace Phrase

/-- A token that was read without a fault. -/
def Clean (t : Token) : Prop :=
  t.IsRead ∧ t.fault = none

/-- A number that a silent stage was given is usable. -/
theorem usable_of_quiet {number : Option Token} {usable : Token → Bool} {finding : Token → Diagnostic}
    (errors : ∀ t, (finding t).isError = true)
    (quiet : Quiet ((number.filter fun t => !usable t).toList.map finding)) :
    ∀ t ∈ number, usable t = true := by
  have none_left := (quiet_map errors).mp quiet
  intro t given
  cases use : usable t with
  | true => rfl
  | false =>
    rw [Option.mem_def.mp given] at none_left
    simp [Option.filter, use] at none_left

namespace Field

variable {f : Field}

/-- A field of which nothing is found is complete, and has one modifier at most. -/
theorem complete_of_quiet (clean : ∀ t ∈ f.tokens, Clean t) (quiet : Quiet f.node.fieldFindings) :
    f.node.toField.Complete ∧ f.modifiers.length ≤ 1 := by
  rw [fieldFindings_node f fun t given => (clean t (number?_mem given)).2, quiet_append,
    quiet_append] at quiet
  obtain ⟨⟨conflicts, untyped⟩, number⟩ := quiet
  rw [toField_node]
  refine ⟨⟨(clean _ f.name_mem).1.lexeme_ne_empty, ?_, ?_⟩, ?_⟩
  · cases given : f.type with
    | some pair => rfl
    | none =>
      rw [given] at untyped
      exact Bool.noConfusion (untyped _ List.mem_cons_self)
  · intro placed
    obtain ⟨t, given⟩ := Option.isSome_iff_exists.mp ((Option.isSome_map).symm.trans placed)
    have usable := usable_of_quiet (fun _ => rfl) number t given
    rw [given]
    exact usable
  · have none_left := (quiet_map fun _ => rfl).mp conflicts
    exact List.drop_eq_nil_iff.mp none_left

end Field

namespace Variant

variable {v : Variant}

/-- A variant of which nothing is found is complete. -/
theorem complete_of_quiet (clean : ∀ t ∈ v.tokens, Clean t)
    (quiet : Quiet v.node.variantFindings) : v.node.toVariant.Complete := by
  rw [variantFindings_node v fun t given => (clean t (number?_mem given)).2, quiet_append] at quiet
  obtain ⟨missing, number⟩ := quiet
  rw [toVariant_node]
  cases given : v.ending.number? with
  | none =>
    rw [given] at missing
    exact Bool.noConfusion (missing _ List.mem_cons_self)
  | some t =>
    rw [given] at number
    refine ⟨(clean _ v.name_mem).1.lexeme_ne_empty, ?_, rfl⟩
    exact usable_of_quiet (fun _ => rfl) number t rfl

end Variant

namespace Importing

variable {i : Importing}

/-- A dotted name has the text of its first identifier in it. -/
theorem dotted_text_ne_empty {d : Dotted} (clean : ∀ t ∈ d.tokens, Clean t) : d.text ≠ "" := by
  intro empty
  have first := (clean d.first.val List.mem_cons_self).1.lexeme_ne_empty
  rw [Dotted.text, Dotted.tokens, List.map_cons, String.join_cons, String.append_eq_empty_iff] at empty
  exact first empty.1

/-- An import of which nothing is found has a name and is trusted. -/
theorem complete_of_quiet (clean : ∀ t ∈ i.tokens, Clean t) (quiet : Quiet i.node.importFindings) :
    i.node.toImport.name ≠ "" ∧ i.node.toImport.status = .unchecked := by
  have sound : ∀ t ∈ i.target.tokens, t.fault = none := fun t member =>
    (clean t (target_mem member)).2
  refine ⟨?_, importStatus_node i sound⟩
  show i.node.importName.text ≠ ""
  rw [importFindings_node i sound] at quiet
  rw [importName_text]
  cases target : i.target with
  | dotted name =>
    rw [text, target]
    refine dotted_text_ne_empty fun t member => clean t (target_mem ?_)
    rw [target]
    exact member
  | quoted literal =>
    intro empty
    rw [target, empty] at quiet
    exact Bool.noConfusion (quiet _ List.mem_cons_self)

end Importing

namespace Declaration

variable {phrase : Declaration}

/-- A declaration of which nothing is found is complete.

Proof: by the kind of the phrase, with the statement for its fields or variants. -/
theorem complete_of_quiet (clean : ∀ t ∈ phrase.tokens, Clean t)
    (quiet : Quiet phrase.node.declarationFindings) :
    ∃ declaration, phrase.node.toDeclaration? = some declaration ∧ declaration.Complete := by
  rw [declarationFindings_node] at quiet
  refine ⟨_, toDeclaration?_node phrase, ?_⟩
  cases phrase with
  | importing i =>
    obtain ⟨named, trusted⟩ := Importing.complete_of_quiet clean quiet
    exact .importing named trusted
  | message b =>
    refine .message (clean _ b.name_mem).1.lexeme_ne_empty ?_
    intro field member
    obtain ⟨f, inside, rfl⟩ := List.mem_map.mp member
    exact (Field.complete_of_quiet (fun t among => clean t (Block.mem_tokens inside among))
      (quiet_flatMap.mp quiet f inside)).1
  | enum b =>
    refine .enum (clean _ b.name_mem).1.lexeme_ne_empty ?_
    intro variant member
    obtain ⟨v, inside, rfl⟩ := List.mem_map.mp member
    exact Variant.complete_of_quiet (fun t among => clean t (Block.mem_tokens inside among))
      (quiet_flatMap.mp quiet v inside)

/-- The fields below a declaration are those of a message.

Proof: the nodes below a phrase are known. Among those of an import or of an enum none is for a
field. -/
theorem field_of_preorder {n : Node} (member : n ∈ phrase.node.preorder) (kind : n.kind = .field) :
    ∃ b : Block .message Field, phrase = .message b ∧ ∃ f ∈ b.items, n = f.node := by
  cases phrase with
  | importing i =>
    rw [Declaration.node, Importing.preorder_node, List.mem_singleton] at member
    rw [member] at kind
    cases kind
  | message b =>
    rw [Declaration.node, preorder_nodeOver, Block.preorder_elements] at member
    simp only [Field.preorder_node, List.mem_cons, List.mem_flatMap, Option.mem_toList,
      Option.map_eq_some_iff] at member
    rcases member with rfl | ⟨f, inside, rfl | ⟨pair, -, rfl⟩⟩
    · cases kind
    · exact ⟨b, rfl, f, inside, rfl⟩
    · cases kind
  | enum b =>
    rw [Declaration.node, preorder_nodeOver, Block.preorder_elements] at member
    simp only [Variant.preorder_node, List.mem_cons, List.mem_flatMap, List.not_mem_nil,
      or_false] at member
    rcases member with rfl | ⟨v, -, rfl⟩
    · cases kind
    · cases kind

end Declaration

end Phrase

/-! ## The grammar and the builder -/

/-- A fault of a token is an error. -/
theorem Problem.severity_of_isLexical {problem : Problem} (lexical : problem.isLexical = true) :
    problem.severity = .error := by
  cases problem with
  | importCycle => exact Bool.noConfusion lexical
  | unusedImport => exact Bool.noConfusion lexical
  | duplicateImport => exact Bool.noConfusion lexical
  | _ => rfl

/-- A report of the grammar is an error. -/
theorem Problem.severity_of_isSyntactic {problem : Problem}
    (syntactic : problem.isSyntactic = true) : problem.severity = .error := by
  cases problem with
  | importCycle => exact Bool.noConfusion syntactic
  | unusedImport => exact Bool.noConfusion syntactic
  | duplicateImport => exact Bool.noConfusion syntactic
  | _ => rfl

/-- If reading a source reports no error, it is a word of the grammar and has no
fault. -/
theorem clean_of_quiet {source : String} (quiet : Quiet (parse (tokenize source)).findings) :
    (∀ t ∈ tokenizeWithTrivia source, t.fault = none)
      ∧ ∃ phrases : List Phrase.Declaration,
        significant (tokenize source) = phrases.flatMap Phrase.Declaration.tokens := by
  obtain ⟨added, same, reported⟩ := parse_findings (tokenize source)
  rw [same, quiet_append] at quiet
  have faultless : tokenFindings (tokenize source) = [] := by
    refine (quiet_iff_nil ?_).mp quiet.1
    intro d member
    exact decide_eq_true (Problem.severity_of_isLexical (tokenFindings_lexical source d member))
  have none_added : added = [] := by
    refine (quiet_iff_nil ?_).mp quiet.2
    intro d member
    exact decide_eq_true (Problem.severity_of_isSyntactic (reported d member).syntactic)
  refine ⟨faultless_of_tokenFindings faultless, exists_phrases_of_findings ?_⟩
  rw [same, none_added, List.append_nil]

/-- The grammar's tokens of a source without faults are clean. -/
theorem significant_clean {source : String}
    (faultless : ∀ t ∈ tokenizeWithTrivia source, t.fault = none) :
    ∀ t ∈ significant (tokenize source), Phrase.Clean t := by
  intro t member
  refine ⟨significant_read source t member, faultless t ?_⟩
  have kept := (List.mem_filter.mp member).1
  exact (List.mem_filter.mp ((List.takeWhile_sublist _).subset kept)).1

/-- If the builder finds nothing in a source that is read as phrases, every declaration of its
document is complete, and no field has a second modifier.

Proof: every declaration is that of a phrase, of which nothing is found either. A node for a
field is that of a field in such a phrase. -/
theorem complete_of_quiet {tokens : List Token} {phrases : List Phrase.Declaration} (name : String)
    (seen : significant tokens = phrases.flatMap Phrase.Declaration.tokens)
    (clean : ∀ t ∈ significant tokens, Phrase.Clean t)
    (quiet : Quiet (parse tokens).tree.documentFindings) :
    (∀ declaration ∈ ((parse tokens).tree.toDocument name).declarations, declaration.Complete)
      ∧ ∀ n ∈ (parse tokens).tree.preorder, n.kind = .field → n.modifiers.length ≤ 1 := by
  rw [parse_phrases phrases seen] at quiet ⊢
  rw [Node.documentFindings, nodes_documentNode_phrases, List.flatMap_map, quiet_flatMap] at quiet
  have inside : ∀ phrase ∈ phrases, ∀ t ∈ phrase.tokens, Phrase.Clean t := by
    intro phrase member t among
    exact clean t (seen ▸ List.mem_flatMap.mpr ⟨phrase, member, among⟩)
  constructor
  · intro declaration member
    rw [Node.toDocument, nodes_documentNode_phrases, List.filterMap_map] at member
    obtain ⟨phrase, among, denoted⟩ := List.mem_filterMap.mp member
    obtain ⟨other, same, complete⟩ :=
      Phrase.Declaration.complete_of_quiet (inside phrase among) (quiet phrase among)
    cases Option.some.inj (same.symm.trans denoted)
    exact complete
  · intro n member kind
    rw [preorder_documentNode, List.mem_cons, List.mem_flatMap] at member
    rcases member with rfl | ⟨phrase, among, below⟩
    · exact nomatch kind
    · obtain ⟨b, rfl, f, item, rfl⟩ := Phrase.Declaration.field_of_preorder below kind
      have silent := quiet _ among
      rw [Phrase.Declaration.declarationFindings_node, quiet_flatMap] at silent
      have single := (Phrase.Field.complete_of_quiet
        (fun t token => inside _ among t (Phrase.Block.mem_tokens item token)) (silent f item)).2
      rwa [Phrase.Field.modifiers_node, List.length_map]

/-! ## Resolution -/

namespace Scope

variable (scope : Scope) (d : Document)

/-- A message with its references resolved. -/
def resolveMessage (m : Message) : Message :=
  { m with fields := m.fields.map scope.resolveField }

/-- The messages of a resolved document are its messages, each resolved. -/
theorem messages_resolveDocument :
    (scope.resolveDocument d).messages = d.messages.map scope.resolveMessage := by
  show (d.declarations.map _).filterMap Declaration.message? = _
  rw [Document.messages, List.filterMap_map, List.map_filterMap]
  apply List.filterMap_congr
  intro declaration _
  cases declaration <;> rfl

/-- The enums of a resolved document are its enums. -/
theorem enums_resolveDocument : (scope.resolveDocument d).enums = d.enums := by
  show (d.declarations.map _).filterMap Declaration.enum? = _
  rw [Document.enums, List.filterMap_map]
  apply List.filterMap_congr
  intro declaration _
  cases declaration <;> rfl

/-- The imports of a resolved document are its imports, each with its new status. -/
theorem imports_resolveDocument :
    (scope.resolveDocument d).imports
      = d.imports.map fun i => { i with status := scope.importStatus (scope.usedImports d) i } := by
  show (d.declarations.map _).filterMap Declaration.import? = _
  rw [Document.imports, List.filterMap_map, List.map_filterMap]
  apply List.filterMap_congr
  intro declaration _
  cases declaration <;> rfl

/-- Silent resolution leaves no reference open. -/
theorem resolved_of_quiet (quiet : Quiet (scope.findings d)) :
    ∀ t ∈ d.typeRefs, (scope.resolveRef t).resolution ≠ .unresolved := by
  have none_left := (quiet_map fun _ => rfl).mp (quiet_append.mp quiet).2
  intro t member unresolved
  exact List.filter_eq_nil_iff.mp none_left t member (decide_eq_true unresolved)

end Scope

/-! ## Checks of a resolved document -/

/-- A declaration that is read as a message is that message. -/
@[simp]
theorem Declaration.message?_eq_some {declaration : Declaration} {m : Message} :
    declaration.message? = some m ↔ declaration = .message m := by
  cases declaration <;> simp [Declaration.message?]

/-- A declaration that is read as an enum is that enum. -/
@[simp]
theorem Declaration.enum?_eq_some {declaration : Declaration} {e : Enum} :
    declaration.enum? = some e ↔ declaration = .enum e := by
  cases declaration <;> simp [Declaration.enum?]

/-- A declaration that is read as an import is that import. -/
@[simp]
theorem Declaration.import?_eq_some {declaration : Declaration} {i : Import} :
    declaration.import? = some i ↔ declaration = .importing i := by
  cases declaration <;> simp [Declaration.import?]

/-- The messages of a document are among its declarations. -/
theorem mem_messages {d : Document} {m : Message} :
    m ∈ d.messages ↔ .message m ∈ d.declarations := by
  simp [Document.messages]

/-- The enums of a document are among its declarations. -/
theorem mem_enums {d : Document} {e : Enum} : e ∈ d.enums ↔ .enum e ∈ d.declarations := by
  simp [Document.enums]

/-- The imports of a document are among its declarations. -/
theorem mem_imports {d : Document} {i : Import} :
    i ∈ d.imports ↔ .importing i ∈ d.declarations := by
  simp [Document.imports]

/-- A complete declaration has a name, whatever it declares. -/
theorem Declaration.Complete.name_ne_empty {declaration : Declaration}
    (complete : declaration.Complete) : declaration.name ≠ "" := by
  cases complete with
  | importing named trusted => exact named
  | message named fields => exact named
  | enum named variants => exact named

section Resolved

variable {scope : Scope} {d : Document} {config : Config}

/-- Resolution keeps the names of declarations. -/
theorem names_resolveDocument (complete : ∀ declaration ∈ d.declarations, declaration.Complete) :
    ∀ declaration ∈ (scope.resolveDocument d).declarations, declaration.name ≠ "" := by
  intro declaration member
  obtain ⟨original, among, rfl⟩ := List.mem_map.mp member
  have named := (complete original among).name_ne_empty
  cases original <;> exact named

/-- Every import of a complete document is looked up, and a silent check means
that it was found.

Proof: resolution gives an import a status by whether a document is supplied, unless it is
malformed, which none is here. A silent check leaves only the status of one that was found. -/
theorem imports_sound (complete : ∀ declaration ∈ d.declarations, declaration.Complete)
    (quiet : Quiet (Check.imports (scope.resolveDocument d))) :
    ∀ i ∈ (scope.resolveDocument d).imports, i.Sound := by
  have lookedUp : ∀ i ∈ (scope.resolveDocument d).imports, i.name ≠ ""
      ∧ i.status = if (scope.imports.get? i.name).isSome
        then .found (i.name ∈ scope.usedImports d) else .missing := by
    intro i member
    rw [scope.imports_resolveDocument] at member
    obtain ⟨original, among, rfl⟩ := List.mem_map.mp member
    cases complete _ (mem_imports.mp among) with
    | importing named trusted =>
      refine ⟨named, ?_⟩
      simp [Scope.importStatus, trusted]
  intro i member
  obtain ⟨named, status⟩ := lookedUp i member
  have trusted : i.status ≠ .recovered := by
    rw [status]
    split <;> exact nofun
  have known : i.status ≠ .missing := by
    refine Check.imports_quiet quiet ?_ member named trusted
    intro first among second other same _ _
    rw [(lookedUp first among).2, (lookedUp second other).2, same]
  refine ⟨named, ?_⟩
  by_cases supplied : (scope.imports.get? i.name).isSome
  · exact ⟨_, status.trans (if_pos supplied)⟩
  · exact absurd (status.trans (if_neg supplied)) known

/-- A complete field whose type is resolved and whose name is permitted can be used, once it is
resolved. -/
theorem field_sound {f : Field} (complete : f.Complete)
    (resolved : ∀ t ∈ f.typeRef, (scope.resolveRef t).resolution ≠ .unresolved)
    (permitted : config.isReserved f.name = false) : (scope.resolveField f).Sound config := by
  obtain ⟨t, given⟩ := Option.isSome_iff_exists.mp complete.typed
  refine ⟨complete.named, ⟨scope.resolveRef t, ?_, resolved t given⟩, complete.tagged, permitted⟩
  show f.typeRef.map scope.resolveRef = _
  rw [given, Option.map_some]

/-- The messages of a complete document, once all their references are resolved.

Proof: the checks of the names and tags are silent, so each is met once. Each field is sound by
itself, since its reference is resolved and its name is permitted. -/
theorem messages_sound (complete : ∀ declaration ∈ d.declarations, declaration.Complete)
    (resolution : Quiet (scope.findings d))
    (names : Quiet (Check.duplicateFieldNames (scope.resolveDocument d)))
    (tags : Quiet (Check.duplicateFieldTags (scope.resolveDocument d)))
    (reserved : Quiet (Check.reservedIdentifiers config (scope.resolveDocument d))) :
    ∀ m ∈ (scope.resolveDocument d).messages, m.Sound config := by
  intro m member
  have usable := Check.reservedIdentifiers_quiet reserved (mem_messages.mp member)
  have uniqueNames := Check.duplicateFieldNames_quiet names member
  have uniqueTags := Check.duplicateFieldTags_quiet tags member
  rw [scope.messages_resolveDocument] at member
  obtain ⟨original, among, rfl⟩ := List.mem_map.mp member
  cases complete _ (mem_messages.mp among) with
  | message named fields =>
    have sound : ∀ f ∈ (scope.resolveMessage original).fields, f.Sound config := by
      intro field inside
      have permitted := usable.2 _ (List.mem_map.mpr ⟨field, inside, rfl⟩)
      obtain ⟨f, here, rfl⟩ := List.mem_map.mp inside
      refine field_sound (fields f here) ?_ permitted
      intro t given
      refine scope.resolved_of_quiet d resolution t (List.mem_filterMap.mpr ⟨f, ?_, given⟩)
      exact List.mem_flatMap.mpr ⟨original, among, here⟩
    refine ⟨named, usable.1 rfl, sound, ?_, uniqueTags⟩
    rwa [filterMap_nameKey? fun f inside => (sound f inside).named] at uniqueNames

/-- The enums of a complete document. A value that is there has a place, so that
no repeated value is passed over. -/
theorem enums_sound (complete : ∀ e ∈ d.enums, (Declaration.enum e).Complete)
    (names : Quiet (Check.duplicateVariantNames d)) (values : Quiet (Check.duplicateEnumValues d))
    (reserved : Quiet (Check.reservedIdentifiers config d)) :
    ∀ e ∈ d.enums, e.Sound config := by
  intro e member
  have usable := Check.reservedIdentifiers_quiet reserved (mem_enums.mp member)
  have uniqueNames := Check.duplicateVariantNames_quiet names member
  have uniqueValues := Check.duplicateEnumValues_quiet values member
  cases complete e member with
  | enum named variants =>
    rw [filterMap_nameKey? fun v inside => (variants v inside).named] at uniqueNames
    refine ⟨named, usable.1 rfl, ?_, uniqueNames, ?_⟩
    · intro v inside
      exact ⟨(variants v inside).named, (variants v inside).valued,
        usable.2 _ (List.mem_map.mpr ⟨v, inside, rfl⟩)⟩
    · have present : (e.variants.filterMap Check.placedValue?).map some = e.variants.map (·.value) := by
        rw [List.map_filterMap, ← List.filterMap_eq_map]
        apply List.filterMap_congr
        intro v inside
        obtain ⟨value, given⟩ := Option.isSome_iff_exists.mp (variants v inside).valued
        simp [Check.placedValue?, (variants v inside).placed, given]
      rw [← present]
      exact uniqueValues.map (Option.some_injective _)

/-- A complete document of which neither resolution nor any check reports an error
is sound once it is resolved. -/
theorem sound_of_quiet (complete : ∀ declaration ∈ d.declarations, declaration.Complete)
    (resolution : Quiet (scope.findings d))
    (checks : Quiet (validationFindings config (scope.resolveDocument d))) :
    (scope.resolveDocument d).Sound config := by
  have silent : ∀ check ∈ Check.all, Quiet (check.run config (scope.resolveDocument d)) :=
    quiet_flatMap.mp checks
  simp only [Check.all, List.forall_mem_cons] at silent
  obtain ⟨declarations, fieldNames, tags, variantNames, values, reserved, circular, importing, -⟩ :=
    silent
  refine ⟨imports_sound complete importing,
    messages_sound complete resolution fieldNames tags reserved,
    enums_sound ?_ variantNames values reserved, ?_, Check.circularTypes_quiet circular⟩
  · intro e member
    rw [scope.enums_resolveDocument] at member
    exact complete _ (mem_enums.mp member)
  · have unique := Check.duplicateDeclarations_quiet declarations
    rwa [filterMap_nameKey?] at unique
    intro declaration member
    exact names_resolveDocument complete declaration (List.mem_filter.mp member).1

end Resolved

/-! ## All stages -/

/-- An analysis that reports no error has a sound outcome: no token of the source
is faulty, the kinds of the significant ones are a word of the grammar, no field
of the tree has two modifiers, and the document is sound.

Proof: silence of an analysis is silence of each of its four stages. Silent reading leaves
faultless tokens that make up phrases; silent building says of these phrases that the
declarations are complete; and with silent resolution and checks a complete document is sound.
-/
theorem clean_analysis_sound (source name : String) (imports : Imports) (config : Config)
    (clean : ∀ d ∈ (analyze source name imports config).diagnostics, d.severity ≠ .error) :
    (∀ t ∈ tokenizeWithTrivia source, t.fault = none)
      ∧ grammarWord (tokenize source) ∈ Grammar.document.matches'
      ∧ (∀ n ∈ (parseSource source).tree.preorder, n.kind = .field → n.modifiers.length ≤ 1)
      ∧ (analyze source name imports config).document.Sound config := by
  have quiet : Quiet (Stages.ofSource source name imports config).stageDiagnostics := by
    apply quiet_sorted.mp
    intro d member
    exact decide_eq_false (clean d member)
  simp only [Stages.stageDiagnostics, quiet_append] at quiet
  obtain ⟨⟨⟨parsing, building⟩, resolution⟩, checks⟩ := quiet
  obtain ⟨faultless, phrases, seen⟩ := clean_of_quiet (quiet_sorted.mp parsing)
  obtain ⟨complete, single⟩ :=
    complete_of_quiet name seen (significant_clean faultless) (quiet_sorted.mp building)
  refine ⟨faultless, (grammarWord_iff _).mpr ⟨phrases, seen⟩, single, ?_⟩
  exact sound_of_quiet complete (quiet_sorted.mp resolution) (quiet_sorted.mp checks)

/-- A source with an import, a message that refers to itself, and an enum. -/
def sampleSource : String :=
  "import base;\nmessage M \x7b optional field next: M = 1; field t: base.T = 0x2; field e: E; \x7d\n"
    ++ "enum E \x7b A = -1; B = 2; \x7d"

/-- The document that `sampleSource` imports. -/
def sampleImports : Imports :=
  Imports.empty.insert "base" ⟨"base", [.message ⟨"T", .origin, [], .origin⟩], .origin⟩

/-- A source with imports, references and both kinds of types is analysed without errors, and
its document is sound. -/
theorem sampleSource_sound :
    (∀ d ∈ (analyze sampleSource "main" sampleImports .standard).diagnostics, d.severity ≠ .error)
      ∧ (analyze sampleSource "main" sampleImports .standard).document.Sound .standard := by
  have clean : ∀ d ∈ (analyze sampleSource "main" sampleImports .standard).diagnostics,
      d.severity ≠ .error := by decide +kernel
  exact ⟨clean, (clean_analysis_sound sampleSource "main" sampleImports .standard clean).2.2.2⟩

end MessageSchema
