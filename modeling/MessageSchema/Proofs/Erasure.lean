import MessageSchema.Analysis
import MessageSchema.Proofs.Relocation

/-!
# Documents without their places

Places are carried through a document for people to see; no stage decides anything
by them. Resolution, the symbol table and the checks commute with every map of
places: they give the same answers, and findings at the mapped places.

What a tree denotes has places that are combined from several tokens, which not
every map keeps. But when all places are erased, it does not matter what they were:
the document of a tree without its places depends on the tree without its places,
and so does what is found wrong in it.
-/

namespace MessageSchema

/-! ## Documents with mapped places -/

/-- An import with its places mapped. -/
def Import.relocate (move : Span → Span) (i : Import) : Import :=
  { i with nameSpan := move i.nameSpan, span := move i.span }

/-- A type reference with its place mapped. -/
def TypeRef.relocate (move : Span → Span) (t : TypeRef) : TypeRef :=
  { t with span := move t.span }

/-- A field with its places mapped, that of its type among them. The place of a tag is mapped
where there is one. -/
def Field.relocate (move : Span → Span) (f : Field) : Field :=
  { f with
    nameSpan := move f.nameSpan
    typeRef := f.typeRef.map (TypeRef.relocate move)
    tagSpan := f.tagSpan.map move
    span := move f.span }

/-- A message with its places mapped, and those of its fields. -/
def Message.relocate (move : Span → Span) (m : Message) : Message :=
  ⟨m.name, move m.nameSpan, m.fields.map (Field.relocate move), move m.span⟩

/-- A variant with its places mapped. -/
def Variant.relocate (move : Span → Span) (v : Variant) : Variant :=
  { v with
    nameSpan := move v.nameSpan
    valueSpan := v.valueSpan.map move
    span := move v.span }

/-- An enum with its places mapped, and those of its variants. -/
def Enum.relocate (move : Span → Span) (e : Enum) : Enum :=
  ⟨e.name, move e.nameSpan, e.variants.map (Variant.relocate move), move e.span⟩

/-- A declaration with its places mapped, whatever it declares. -/
def Declaration.relocate (move : Span → Span) : Declaration → Declaration
  | .importing i => .importing (i.relocate move)
  | .message m => .message (m.relocate move)
  | .enum e => .enum (e.relocate move)

/-- A document with every place in it mapped. -/
def Document.relocate (move : Span → Span) (d : Document) : Document :=
  ⟨d.name, d.declarations.map (Declaration.relocate move), move d.span⟩

variable (move : Span → Span)

namespace Declaration

/-- The name of a declaration does not depend on places. -/
@[simp] theorem name_relocate (d : Declaration) : (d.relocate move).name = d.name := by
  cases d <;> rfl

/-- The place of the name is mapped with the declaration. -/
@[simp] theorem nameSpan_relocate (d : Declaration) :
    (d.relocate move).nameSpan = move d.nameSpan := by
  cases d <;> rfl

/-- Neither does the kind of a declaration depend on places. -/
@[simp] theorem kind?_relocate (d : Declaration) : (d.relocate move).kind? = d.kind? := by
  cases d <;> rfl

/-- A declaration declares a type or not, whatever its places are. -/
@[simp] theorem isType_relocate (d : Declaration) : (d.relocate move).isType = d.isType := by
  rw [isType, isType, kind?_relocate]

/-- A declaration that is mapped is an import exactly if it was one, and it is that import,
mapped. -/
theorem import?_relocate (d : Declaration) :
    (d.relocate move).import? = d.import?.map (Import.relocate move) := by
  cases d <;> rfl

/-- The same for messages. -/
theorem message?_relocate (d : Declaration) :
    (d.relocate move).message? = d.message?.map (Message.relocate move) := by
  cases d <;> rfl

/-- The same for enums. -/
theorem enum?_relocate (d : Declaration) :
    (d.relocate move).enum? = d.enum?.map (Enum.relocate move) := by
  cases d <;> rfl

end Declaration

namespace Document

variable (d : Document)

/-- The imports of a mapped document are its imports, mapped. -/
theorem imports_relocate : (d.relocate move).imports = d.imports.map (Import.relocate move) := by
  rw [imports, imports, relocate, List.filterMap_map, List.map_filterMap]
  exact List.filterMap_congr fun e _ => e.import?_relocate move

/-- The messages of a mapped document are its messages, mapped. -/
theorem messages_relocate :
    (d.relocate move).messages = d.messages.map (Message.relocate move) := by
  rw [messages, messages, relocate, List.filterMap_map, List.map_filterMap]
  exact List.filterMap_congr fun e _ => e.message?_relocate move

/-- The enums of a mapped document are its enums, mapped. -/
theorem enums_relocate : (d.relocate move).enums = d.enums.map (Enum.relocate move) := by
  rw [enums, enums, relocate, List.filterMap_map, List.map_filterMap]
  exact List.filterMap_congr fun e _ => e.enum?_relocate move

/-- What a document imports is told by names alone. -/
theorem importNames_relocate : (d.relocate move).importNames = d.importNames := by
  rw [importNames, importNames, imports_relocate, List.map_map]
  rfl

/-- The types of a mapped document are declared under the same identities. -/
theorem types_relocate :
    (d.relocate move).types = d.types.map fun (declaration, id) => (declaration.relocate move, id) := by
  simp [types, relocate, List.zipIdx_map, List.filterMap_map, List.map_filterMap, Function.comp_def]

/-- The references of a mapped document are its references, mapped, and in the same order. -/
theorem typeRefs_relocate :
    (d.relocate move).typeRefs = d.typeRefs.map (TypeRef.relocate move) := by
  simp [typeRefs, messages_relocate, Message.relocate, Field.relocate, List.flatMap_map,
    List.filterMap_flatMap, List.map_flatMap, List.filterMap_map, List.map_filterMap,
    Function.comp_def]

end Document

/-! ## Resolution does not look at places -/

/-- The symbol table holds names and identities, so it does not change. -/
theorem SymbolTable.ofDocument_relocate (d : Document) :
    ofDocument (d.relocate move) = ofDocument d := by
  rw [ofDocument, ofDocument, Document.types_relocate, List.foldl_map]
  simp only [Declaration.name_relocate]

namespace Scope

/-- Neither does what a scope knows of the document that is analysed. -/
theorem ofDocument_relocate (d : Document) (imports : Imports) (config : Config) :
    ofDocument (d.relocate move) imports config = ofDocument d imports config := by
  rw [ofDocument, ofDocument, SymbolTable.ofDocument_relocate, Document.importNames_relocate]
  rfl

variable (scope : Scope) (d : Document)

/-- A field that is mapped resolves as the field does, and the outcome is mapped. -/
theorem resolveField_relocate (f : Field) :
    scope.resolveField (f.relocate move) = (scope.resolveField f).relocate move := by
  simp only [resolveField, Field.relocate, Option.map_map]
  rfl

/-- The imports that are used are the same: how a reference is found is told by its text. -/
theorem usedImports_relocate : scope.usedImports (d.relocate move) = scope.usedImports d := by
  rw [usedImports, usedImports, Document.typeRefs_relocate, List.filterMap_map]
  rfl

/-- Each declaration resolves as before. Only messages have fields to resolve, and the status of
an import is recorded without a look at its places. -/
theorem resolveDeclaration_relocate (used : List String) (declaration : Declaration) :
    scope.resolveDeclaration used (declaration.relocate move)
      = (scope.resolveDeclaration used declaration).relocate move := by
  cases declaration with
  | importing i => rfl
  | message m =>
    simp [resolveDeclaration, Declaration.relocate, Message.relocate, resolveField_relocate]
  | enum e => rfl

/-- A mapped document resolves to the resolved document, mapped. -/
theorem resolveDocument_relocate :
    scope.resolveDocument (d.relocate move) = (scope.resolveDocument d).relocate move := by
  rw [resolveDocument, usedImports_relocate]
  simp [resolveDocument, Document.relocate, resolveDeclaration_relocate]

/-- Resolution finds the same, at the mapped places. -/
theorem findings_relocate :
    scope.findings (d.relocate move) = (scope.findings d).map (Diagnostic.relocate move) := by
  simp only [findings, cyclicImports, unresolvedRefs, Document.imports_relocate,
    Document.typeRefs_relocate, List.filter_map, List.map_map, List.map_append]
  rfl

end Scope

/-- A document with mapped places is resolved to the resolved document with mapped
places, with the same types and with the findings at mapped places. -/
theorem resolve_relocate (d : Document) (imports : Imports) (config : Config) :
    resolve (d.relocate move) imports config
      = ⟨(resolve d imports config).document.relocate move, (resolve d imports config).symbols,
          (resolve d imports config).findings.map (Diagnostic.relocate move)⟩ := by
  simp only [resolve, Scope.ofDocument_relocate, Scope.resolveDocument_relocate,
    Scope.findings_relocate]

/-! ## Checks do not look at places -/

/-- Repetitions are found by the keys. -/
theorem repeatsAfter_map {α β κ : Type} [DecidableEq κ] (key? : β → Option κ) (g : α → β)
    (before members : List α) :
    repeatsAfter key? (before.map g) (members.map g)
      = (repeatsAfter (key? ∘ g) before members).map (Prod.map g g) := by
  induction members generalizing before with
  | nil => rfl
  | cons x rest ih =>
    have later := ih (before ++ [x])
    rw [List.map_append, List.map_singleton] at later
    simp only [List.map_cons, repeatsAfter, later, List.find?_map, Function.comp_def]
    split
    · rfl
    · cases before.find? (fun first => key? (g first) = key? (g x)) <;> rfl

/-- Members repeat the keys they repeated before, if the keys are read through the map. -/
theorem repeats_map {α β κ : Type} [DecidableEq κ] (key? : β → Option κ) (g : α → β)
    (members : List α) :
    repeats key? (members.map g) = (repeats (key? ∘ g) members).map (Prod.map g g) :=
  repeatsAfter_map key? g [] members

namespace Check

variable (d : Document)

/-- The same types and imports are found to be declared again. What is a type does not depend on
places, so the lists that are searched correspond. -/
theorem duplicateDeclarations_relocate :
    duplicateDeclarations (d.relocate move)
      = (duplicateDeclarations d).map (Diagnostic.relocate move) := by
  have types : (d.relocate move).declarations.filter Declaration.isType
      = (d.declarations.filter Declaration.isType).map (Declaration.relocate move) := by
    simp [Document.relocate, List.filter_map, Function.comp_def]
  simp [duplicateDeclarations, types, Document.imports_relocate, repeats_map, Function.comp_def,
    Diagnostic.relocate, Import.relocate]

/-- The same fields are found to repeat a name. -/
theorem duplicateFieldNames_relocate :
    duplicateFieldNames (d.relocate move)
      = (duplicateFieldNames d).map (Diagnostic.relocate move) := by
  simp [duplicateFieldNames, Document.messages_relocate, Message.relocate, repeats_map,
    Function.comp_def, Diagnostic.relocate, Field.relocate, List.flatMap_map, List.map_flatMap]

/-- The same fields are found to repeat a tag. -/
theorem duplicateFieldTags_relocate :
    duplicateFieldTags (d.relocate move)
      = (duplicateFieldTags d).map (Diagnostic.relocate move) := by
  simp [duplicateFieldTags, tagReused, Document.messages_relocate, Message.relocate, repeats_map,
    Function.comp_def, Diagnostic.relocate, Field.relocate, List.flatMap_map, List.map_flatMap,
    List.filterMap_map, List.map_filterMap]

/-- The same variants are found to repeat a name. -/
theorem duplicateVariantNames_relocate :
    duplicateVariantNames (d.relocate move)
      = (duplicateVariantNames d).map (Diagnostic.relocate move) := by
  simp [duplicateVariantNames, Document.enums_relocate, Enum.relocate, repeats_map,
    Function.comp_def, Diagnostic.relocate, Variant.relocate, List.flatMap_map, List.map_flatMap]

/-- The finding for a repeated value is mapped with the variant. -/
theorem valueReused_relocate (e : Enum) (again first : Variant) :
    valueReused (e.relocate move) (again.relocate move) (first.relocate move)
      = (valueReused e again first).map (Diagnostic.relocate move) := by
  simp only [valueReused, Variant.relocate, Enum.relocate]
  cases again.value <;> cases again.valueSpan <;> rfl

/-- The same variants are found to repeat a value. Whether a value counts depends on its place
being known, and it is known before exactly if it is known after. -/
theorem duplicateEnumValues_relocate :
    duplicateEnumValues (d.relocate move)
      = (duplicateEnumValues d).map (Diagnostic.relocate move) := by
  have keys : placedValue? ∘ Variant.relocate move = placedValue? := by
    funext v
    simp [placedValue?, Variant.relocate]
  have variants : ∀ e : Enum, (e.relocate move).variants = e.variants.map (Variant.relocate move) :=
    fun _ => rfl
  simp [duplicateEnumValues, Document.enums_relocate, variants, repeats_map, keys,
    valueReused_relocate, List.flatMap_map, List.map_flatMap, List.filterMap_map,
    List.map_filterMap]

/-- The same names are found unusable, at the mapped places. What is collected for a declaration
is its own name and those of its members. -/
theorem unusableNames_relocate (config : Config) (declaration : Declaration) :
    unusableNames config (declaration.relocate move)
      = (unusableNames config declaration).map (Prod.map id move) := by
  have members : memberNames (declaration.relocate move)
      = (memberNames declaration).map (Prod.map id move) := by
    cases declaration with
    | importing i => rfl
    | message m => simp [memberNames, Declaration.relocate, Message.relocate, Field.relocate]
    | enum e => simp [memberNames, Declaration.relocate, Enum.relocate, Variant.relocate]
  simp only [unusableNames, members, Declaration.isType_relocate, Declaration.name_relocate,
    Declaration.nameSpan_relocate, List.map_append, List.filter_map, Function.comp_def]
  split <;> rfl

/-- The same reserved names are found. -/
theorem reservedIdentifiers_relocate (config : Config) :
    reservedIdentifiers config (d.relocate move)
      = (reservedIdentifiers config d).map (Diagnostic.relocate move) := by
  simp [reservedIdentifiers, Document.relocate, unusableNames_relocate, List.flatMap_map,
    List.map_flatMap, Diagnostic.relocate, Function.comp_def]

/-- A field holds the same message as before. -/
theorem heldMessage?_relocate (f : Field) :
    heldMessage? (d.relocate move) (f.relocate move) = heldMessage? d f := by
  simp only [heldMessage?, Field.relocate, Option.bind_map]
  rfl

/-- The messages keep their indices. -/
theorem indexedMessages_relocate :
    indexedMessages (d.relocate move)
      = (indexedMessages d).map fun (index, m) => (index, m.relocate move) := by
  simp [indexedMessages, Document.relocate, List.zipIdx_map, List.filterMap_map, List.map_filterMap,
    Declaration.message?_relocate, Function.comp_def]

/-- The graph of containment is made of indices, so it does not change. -/
theorem containment_relocate : containment (d.relocate move) = containment d := by
  simp [containment, indexedMessages_relocate, Message.relocate, List.filterMap_map,
    Function.comp_def, heldMessage?_relocate]

/-- The same fields of a message are found to be on circles. -/
theorem circularFields_relocate (index : Nat) (m : Message) :
    circularFields (d.relocate move) index (m.relocate move)
      = (circularFields d index m).map (Field.relocate move) := by
  simp [circularFields, Message.relocate, containment_relocate, heldMessage?_relocate,
    List.filter_map, Function.comp_def]

/-- The finding for a field on a circle is mapped with the field. -/
theorem circularFinding_relocate (m : Message) (f : Field) :
    circularFinding (m.relocate move) (f.relocate move)
      = (circularFinding m f).relocate move := by
  simp only [circularFinding, Field.relocate, Diagnostic.relocate]
  cases f.typeRef <;> rfl

/-- The same circles are found, at the mapped places. -/
theorem circularTypes_relocate :
    circularTypes (d.relocate move) = (circularTypes d).map (Diagnostic.relocate move) := by
  simp [circularTypes, indexedMessages_relocate, circularFields_relocate, circularFinding_relocate,
    List.flatMap_map, List.map_flatMap, Function.comp_def]

/-- The first import of each name is the same one as before. By induction on the imports; those
that are dropped are told by their names. -/
theorem firstImports_map (is : List Import) :
    firstImports (is.map (Import.relocate move))
      = (firstImports is).map (Import.relocate move) := by
  induction is with
  | nil => rfl
  | cons i rest ih =>
    rw [List.map_cons, firstImports, firstImports, ih, List.filter_map]
    rfl

/-- What is found of an import is found at its mapped place. -/
theorem importFinding?_relocate (i : Import) :
    importFinding? (i.relocate move) = (importFinding? i).map (Diagnostic.relocate move) := by
  simp only [importFinding?, Import.relocate]
  split <;> rfl

/-- The check of imports finds the same. It leaves out imports by status and name only. -/
theorem imports_relocate :
    imports (d.relocate move) = (imports d).map (Diagnostic.relocate move) := by
  have judged : judgedImports (d.relocate move)
      = (judgedImports d).map (Import.relocate move) := by
    rw [judgedImports, judgedImports, Document.imports_relocate, List.filter_map]
    rfl
  simp [imports, judged, firstImports_map, importFinding?_relocate, List.filterMap_map,
    List.map_filterMap]

end Check

/-- A document with mapped places has the findings of the document, at mapped places. -/
theorem validationFindings_relocate (config : Config) (d : Document) :
    validationFindings config (d.relocate move)
      = (validationFindings config d).map (Diagnostic.relocate move) := by
  simp only [validationFindings, Check.findingsOf, Check.all, List.flatMap_cons, List.flatMap_nil,
    List.map_append, List.map_nil, Check.duplicateDeclarations_relocate,
    Check.duplicateFieldNames_relocate, Check.duplicateFieldTags_relocate,
    Check.duplicateVariantNames_relocate, Check.duplicateEnumValues_relocate,
    Check.reservedIdentifiers_relocate, Check.circularTypes_relocate, Check.imports_relocate]

/-! ## Documents of trees -/

/-- Forgets a place: all places become one. -/
def Span.erase (_ : Span) : Span := .origin

/-- Erasing places respects empty spans: it makes all spans the same one. -/
theorem Span.carries_erase : Span.Carries Span.erase where
  emptyAtStart _ := rfl
  union _ _ := rfl

/-- A document without its places. -/
def Document.erased (d : Document) : Document :=
  d.relocate Span.erase

namespace Node

variable (n : Node)

/-- A name has the same text when the tokens around it have moved. It may have another place,
since a missing name is placed by the token before it. -/
theorem nameAfter_text (word : Keyword) :
    ((n.relocate move).nameAfter word).text = (n.nameAfter word).text := by
  rw [nameAfter, nameAfter, tokenAfter?_relocate]
  cases n.tokenAfter? (.keyword word) with
  | none => rfl
  | some t =>
    by_cases identifier : t.kind = .identifier
    · simp [identifier, Token.relocate]
    · simp [identifier, Token.relocate]

/-- What is imported is spelled the same, as a string or as a dotted name. -/
theorem importName_text : (n.relocate move).importName.text = n.importName.text := by
  rw [importName, importName, importTarget_relocate]
  cases n.importTarget with
  | nil => rfl
  | cons first rest =>
    by_cases quoted : first.kind = .string
    · simp [quoted, Token.relocate]
    · simp [quoted, Token.relocate, Function.comp_def]

/-- The name of a variant has the same text. -/
theorem variantName_text : (n.relocate move).variantName.text = n.variantName.text := by
  rw [variantName, variantName, firstToken?_relocate]
  cases n.firstToken? .identifier <;> rfl

/-- The type of a field, without its place, is the same: its text is put together from the
lexemes of its tokens. -/
theorem fieldType_erase :
    (n.relocate move).fieldType.map (TypeRef.relocate Span.erase)
      = n.fieldType.map (TypeRef.relocate Span.erase) := by
  rw [fieldType, fieldType, firstNode?_relocate]
  cases n.firstNode? .typeRef with
  | none => rfl
  | some t =>
    have texts : (t.tokens.map (Token.relocate move)).map (·.lexeme) = t.tokens.map (·.lexeme) := by
      rw [List.map_map]
      rfl
    simp only [Option.map_some, hasError_relocate, tokens_relocate, texts]
    cases t.hasError <;> rfl

/-- An import without its places is the same. -/
theorem toImport_erase :
    (n.relocate move).toImport.relocate Span.erase = n.toImport.relocate Span.erase := by
  simp only [toImport, Import.relocate, importName_text, importStatus_relocate]
  rfl

/-- A field without its places is the same. -/
theorem toField_erase :
    (n.relocate move).toField.relocate Span.erase = n.toField.relocate Span.erase := by
  simp only [toField, Field.relocate, nameAfter_text, fieldType_erase, modifiers_relocate,
    numberToken?_relocate, List.head?_map, Option.map_map, Option.bind_map]
  rfl

/-- A message without its places is the same. -/
theorem toMessage_erase :
    (n.relocate move).toMessage.relocate Span.erase = n.toMessage.relocate Span.erase := by
  simp only [toMessage, Message.relocate, nameAfter_text, nodesOf_relocate, List.map_map,
    Function.comp_def, toField_erase]
  rfl

/-- A variant without its places is the same. -/
theorem toVariant_erase :
    (n.relocate move).toVariant.relocate Span.erase = n.toVariant.relocate Span.erase := by
  simp only [toVariant, Variant.relocate, variantName_text, numberToken?_relocate, Option.map_map,
    Option.bind_map]
  rfl

/-- An enum without its places is the same. -/
theorem toEnum_erase :
    (n.relocate move).toEnum.relocate Span.erase = n.toEnum.relocate Span.erase := by
  simp only [toEnum, Enum.relocate, nameAfter_text, nodesOf_relocate, List.map_map,
    Function.comp_def, toVariant_erase]
  rfl

/-- A node that moved declares the same as before, or again nothing. -/
theorem toDeclaration?_erase :
    (n.relocate move).toDeclaration?.map (Declaration.relocate Span.erase)
      = n.toDeclaration?.map (Declaration.relocate Span.erase) := by
  rw [toDeclaration?, toDeclaration?, kind_relocate]
  cases n.kind <;> simp [Declaration.relocate, toImport_erase, toMessage_erase, toEnum_erase]

/-- The document of a tree, without its places, does not depend on the places in the
tree. -/
theorem toDocument_erased (name : String) :
    ((n.relocate move).toDocument name).erased = (n.toDocument name).erased := by
  have declarations : ((n.relocate move).nodes.filterMap toDeclaration?).map
      (Declaration.relocate Span.erase)
        = (n.nodes.filterMap toDeclaration?).map (Declaration.relocate Span.erase) := by
    rw [nodes_relocate, List.filterMap_map, List.map_filterMap, List.map_filterMap]
    exact List.filterMap_congr fun m _ => toDeclaration?_erase move m
  simp only [Document.erased, Document.relocate, toDocument, declarations]
  rfl

/-- Findings are withheld from a broken node or not, whatever the places are. -/
theorem findings_problems {found other : List Diagnostic}
    (same : found.map (·.problem) = other.map (·.problem)) :
    ((n.relocate move).findings found).map (·.problem) = (n.findings other).map (·.problem) := by
  rw [findings, findings, hasError_relocate]
  split
  · rfl
  · exact same

/-- The same problems are found with what is imported. -/
theorem importFindings_problems :
    (n.relocate move).importFindings.map (·.problem) = n.importFindings.map (·.problem) := by
  apply findings_problems
  rw [importTarget_relocate, importName_text]
  cases n.importTarget with
  | nil => rfl
  | cons first rest =>
    simp only [List.map_cons, Token.relocate]
    split <;> rfl

/-- The same problem is found with a number, or none again. Lexeme and fault of the number token
are those it had. -/
theorem numberFindings_problems (usable : String → Bool) (problem : String → Problem) :
    ((n.relocate move).numberFindings usable problem).map (·.problem)
      = (n.numberFindings usable problem).map (·.problem) := by
  rw [numberFindings, numberFindings, numberToken?_relocate]
  cases n.numberToken? with
  | none => rfl
  | some t =>
    simp only [Option.map_some, Token.relocate]
    split <;> rfl

/-- The same problems are found in a field: with its modifiers, its name, its type and its
tag. -/
theorem fieldFindings_problems :
    (n.relocate move).fieldFindings.map (·.problem) = n.fieldFindings.map (·.problem) := by
  apply findings_problems
  simp only [List.map_append, numberFindings_problems, nameAfter_text, modifiers_relocate,
    firstNode?_relocate, Option.isNone_map, ← List.map_drop, List.map_map]
  split <;> rfl

/-- The same problems are found in a variant. -/
theorem variantFindings_problems :
    (n.relocate move).variantFindings.map (·.problem) = n.variantFindings.map (·.problem) := by
  apply findings_problems
  simp only [variantName_text, numberToken?_relocate, Option.isNone_map]
  split
  · rfl
  · exact numberFindings_problems move n _ _

/-- The same problems are found in a declaration and its items. -/
theorem declarationFindings_problems :
    (n.relocate move).declarationFindings.map (·.problem)
      = n.declarationFindings.map (·.problem) := by
  rw [declarationFindings, declarationFindings, kind_relocate]
  cases n.kind <;> simp [importFindings_problems, fieldFindings_problems,
    variantFindings_problems, List.map_flatMap, List.flatMap_map]

/-- What is wrong in the declarations of a tree does not depend on the places in it. -/
theorem documentFindings_problems :
    (n.relocate move).documentFindings.map (·.problem) = n.documentFindings.map (·.problem) := by
  simp [documentFindings, declarationFindings_problems, List.map_flatMap, List.flatMap_map]

end Node

end MessageSchema
