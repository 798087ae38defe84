import MessageSchema.Proofs.Search
import MessageSchema.Proofs.Soundness
import MessageSchema.Resolve

/-!
# What references stand for

The rules by which a type reference of a document gets its meaning are given as a
relation between the text of the reference and what it stands for. A text with a
dot is judged by its last dot. One without is a type of the document, or else a
builtin type, or else what the first import finds that finds anything.

The rules overlap nowhere and leave no text out, and resolution gives every
reference the one meaning that they allow. What is reported is one finding for
each reference that is left without a meaning.
-/

namespace MessageSchema

/-- The names that a document imports, each at its first place. Missing names are
left out. -/
def Document.importOrder (d : Document) : List String :=
  (d.importNames.filter (· ≠ "")).eraseDups

/-- The rules for what the text of a reference stands for in a document. -/
inductive StandsFor (d : Document) (imports : Imports) (config : Config) :
    String → Resolution → Prop
  | qualified {qualifier name : String} {stored : Document} {id : DeclId}
      (last : '.' ∉ name.toList) (imported : qualifier ∈ d.importOrder)
      (supplied : imports.get? qualifier = some stored) (declares : stored.Declares name id) :
      StandsFor d imports config (qualifier ++ "." ++ name) (.declaration id)
  | misqualified {qualifier name : String} (last : '.' ∉ name.toList)
      (nothing : qualifier ∈ d.importOrder → ∀ stored, imports.get? qualifier = some stored →
        ∀ id, ¬ stored.Declares name id) :
      StandsFor d imports config (qualifier ++ "." ++ name) .unresolved
  | own {name : String} {id : DeclId} (plain : '.' ∉ name.toList) (given : name ≠ "")
      (declares : d.Declares name id) : StandsFor d imports config name (.declaration id)
  | builtin {name : String} (plain : '.' ∉ name.toList)
      (undeclared : name ≠ "" → ∀ id, ¬ d.Declares name id)
      (builtin : config.isBuiltin name = true) : StandsFor d imports config name .builtin
  | imported {name key : String} {id : DeclId} {before after : List String}
      (plain : '.' ∉ name.toList) (undeclared : name ≠ "" → ∀ id, ¬ d.Declares name id)
      (notBuiltin : config.isBuiltin name = false) (order : d.importOrder = before ++ key :: after)
      (passed : ∀ earlier ∈ before, imports.Finds d.name name earlier none)
      (found : imports.Finds d.name name key (some id)) :
      StandsFor d imports config name (.declaration id)
  | unknown {name : String} (plain : '.' ∉ name.toList)
      (undeclared : name ≠ "" → ∀ id, ¬ d.Declares name id)
      (notBuiltin : config.isBuiltin name = false)
      (unreached : ∀ e, imports.Reached d.name d.importOrder e → ∀ id, ¬ e.Declares name id) :
      StandsFor d imports config name .unresolved

/-! ## The last dot -/

/-- A text is not split exactly if it has no dot. -/
theorem splitAtLastDot?_eq_none_iff (text : List Char) :
    splitAtLastDot? text = none ↔ '.' ∉ text := by
  induction text with
  | nil => simp [splitAtLastDot?]
  | cons c rest ih =>
    rw [splitAtLastDot?, List.mem_cons, not_or, ← ih]
    cases splitAtLastDot? rest with
    | some parts => simp
    | none => by_cases dot : c = '.' <;> simp [dot, eq_comm]

/-- A text is split at a dot that no other dot follows. -/
theorem splitAtLastDot?_append (before : List Char) {after : List Char} (last : '.' ∉ after) :
    splitAtLastDot? (before ++ '.' :: after) = some (before, after) := by
  induction before with
  | nil => simp [splitAtLastDot?, (splitAtLastDot?_eq_none_iff after).mpr last]
  | cons c rest ih => rw [List.cons_append, splitAtLastDot?, ih]

/-- Where a text is split there is a dot, and none behind it. By induction on the text: a
character is part of what comes before if the rest is split, and otherwise it can only be the
dot itself. -/
theorem splitAtLastDot?_eq_some {text before after : List Char}
    (split : splitAtLastDot? text = some (before, after)) :
    text = before ++ '.' :: after ∧ '.' ∉ after := by
  induction text generalizing before with
  | nil => exact nomatch split
  | cons c rest ih =>
    rw [splitAtLastDot?] at split
    cases below : splitAtLastDot? rest with
    | some parts =>
      rw [below] at split
      obtain ⟨rfl, rfl⟩ := Prod.mk.inj (Option.some.inj split)
      obtain ⟨rfl, last⟩ := ih below
      exact ⟨rfl, last⟩
    | none =>
      rw [below] at split
      by_cases dot : c = '.'
      · rw [if_pos dot] at split
        obtain ⟨rfl, rfl⟩ := Prod.mk.inj (Option.some.inj split)
        exact ⟨by rw [dot, List.nil_append], (splitAtLastDot?_eq_none_iff _).mp below⟩
      · rw [if_neg dot] at split
        exact nomatch split

namespace TypeRef

variable {t : TypeRef} {qualifier : String}

/-- A reference with a dot is put together from its parts. -/
theorem raw_of_qualifier? (given : t.qualifier? = some qualifier) :
    t.raw = qualifier ++ "." ++ t.baseName ∧ '.' ∉ t.baseName.toList := by
  obtain ⟨⟨before, after⟩, split, rfl⟩ := Option.map_eq_some_iff.mp given
  have base : t.baseName = String.ofList after := by rw [baseName, split]
  obtain ⟨whole, last⟩ := splitAtLastDot?_eq_some split
  rw [base]
  refine ⟨?_, by simpa using last⟩
  apply String.toList_injective
  simp [whole]

/-- What stands before the last dot of a reference is its qualifier, and what stands behind it
is its name. -/
theorem parts_of_raw {name : String} (raw : t.raw = qualifier ++ "." ++ name)
    (last : '.' ∉ name.toList) : t.qualifier? = some qualifier ∧ t.baseName = name := by
  have whole : t.raw.toList = qualifier.toList ++ '.' :: name.toList := by simp [raw]
  have split := splitAtLastDot?_append qualifier.toList last
  rw [qualifier?, baseName, whole, split]
  simp

/-- A reference has no qualifier exactly if there is no dot in it. -/
theorem qualifier?_eq_none_iff : t.qualifier? = none ↔ '.' ∉ t.raw.toList := by
  rw [qualifier?, Option.map_eq_none_iff, splitAtLastDot?_eq_none_iff]

/-- A reference without a dot is the name itself. -/
theorem baseName_of_plain (plain : '.' ∉ t.raw.toList) : t.baseName = t.raw := by
  rw [baseName, (splitAtLastDot?_eq_none_iff _).mpr plain]

end TypeRef

/-! ## What is visible in a scope -/

/-- To keep each value at its first place is to erase duplicates. By induction from the end of
the list, where a value is added if it is new. -/
theorem distinct_eq_eraseDups {α : Type} [DecidableEq α] (values : List α) :
    distinct values = values.eraseDups := by
  induction values using List.reverseRecOn with
  | nil => rfl
  | append_singleton values value ih =>
    have step : distinct (values ++ [value])
        = if value ∈ distinct values then distinct values else distinct values ++ [value] := by
      rw [distinct, List.foldl_append]
      rfl
    rw [step, ih, List.eraseDups_append]
    simp only [List.mem_eraseDups, List.removeAll, List.filter_cons, List.filter_nil]
    by_cases member : value ∈ values <;> simp [member, List.eraseDups_cons]

/-- An entry that is there already stays. -/
theorem SymbolTable.getElem?_insertIfNew (types : Std.ExtTreeMap String DeclId compare)
    (key name : String) (id : DeclId) :
    (types.insertIfNew key id)[name]? = types[name]?.or (if key = name then some id else none) := by
  rw [Std.ExtTreeMap.getElem?_insertIfNew]
  simp only [Std.compare_eq_iff_eq, Std.ExtTreeMap.mem_iff_isSome_getElem?]
  by_cases same : key = name
  · subst same
    cases types[key]? <;> simp
  · simp [same]

/-- Types are added in their order, so what the table had comes first, then the
first of them. -/
theorem SymbolTable.getElem?_foldl (name : String) (types : List (Declaration × DeclId))
    (table : Std.ExtTreeMap String DeclId compare) :
    (types.foldl (fun table (declaration, id) =>
        if declaration.name = "" then table else table.insertIfNew declaration.name id) table)[name]?
      = table[name]?.or
          (if name = "" then none else (types.find? (·.1.name = name)).map (·.2)) := by
  induction types generalizing table with
  | nil => simp
  | cons entry rest ih =>
    obtain ⟨declaration, id⟩ := entry
    rw [List.foldl_cons, ih]
    by_cases missing : declaration.name = ""
    · by_cases empty : name = "" <;> simp [missing, empty]
    · simp only [missing, if_false, getElem?_insertIfNew, Option.or_assoc]
      by_cases same : declaration.name = name
      · simp [same, same ▸ missing]
      · simp [same]

/-- A symbol table holds the first type of each name that is not missing. -/
theorem SymbolTable.get?_ofDocument (d : Document) (name : String) :
    (SymbolTable.ofDocument d).get? name = if name = "" then none else d.findType? name := by
  rw [get?, ofDocument, getElem?_foldl, Std.ExtTreeMap.getElem?_empty, Option.none_or,
    Document.findType?]

/-- A name is in the symbol table exactly if it is not missing and the document declares it. -/
theorem SymbolTable.get?_ofDocument_eq_some_iff {d : Document} {name : String} {id : DeclId} :
    (SymbolTable.ofDocument d).get? name = some id ↔ name ≠ "" ∧ d.Declares name id := by
  rw [get?_ofDocument, ← Document.findType?_eq_some_iff]
  by_cases missing : name = "" <;> simp [missing]

/-! ## What imports give -/

namespace Document

variable {d : Document} {imports : Imports} {name : String} {id : DeclId}

/-- What a qualified name stands for, if it stands for anything. -/
def qualifiedType? (d : Document) (imports : Imports) (qualifier name : String) : Option DeclId :=
  if qualifier ∈ d.importOrder then (imports.get? qualifier).bind (·.findType? name) else none

/-- What a name stands for through the imports, if it stands for anything. -/
def importedType? (d : Document) (imports : Imports) (name : String) : Option DeclId :=
  d.importOrder.findSome? fun key => imports.findThrough? d.name key name

/-- A qualified name stands for a declaration exactly if the qualifier is imported and the
document under it declares the name. -/
theorem qualifiedType?_eq_some_iff {qualifier : String} :
    d.qualifiedType? imports qualifier name = some id
      ↔ qualifier ∈ d.importOrder
        ∧ ∃ stored, imports.get? qualifier = some stored ∧ stored.Declares name id := by
  simp only [← findType?_eq_some_iff, ← Option.bind_eq_some_iff, qualifiedType?]
  by_cases imported : qualifier ∈ d.importOrder <;> simp [imported]

/-- It stands for nothing if there is no such document or none that declares the name. -/
theorem qualifiedType?_eq_none_iff {qualifier : String} :
    d.qualifiedType? imports qualifier name = none
      ↔ (qualifier ∈ d.importOrder → ∀ stored, imports.get? qualifier = some stored →
        ∀ id, ¬ stored.Declares name id) := by
  simp only [← findType?_eq_none_iff, ← Option.bind_eq_none_iff, qualifiedType?]
  by_cases imported : qualifier ∈ d.importOrder <;> simp [imported]

/-- The first import that finds anything decides. -/
theorem importedType?_eq_some_iff :
    d.importedType? imports name = some id
      ↔ ∃ before key after, d.importOrder = before ++ key :: after
        ∧ imports.Finds d.name name key (some id)
        ∧ ∀ earlier ∈ before, imports.Finds d.name name earlier none := by
  simp only [importedType?, List.findSome?_eq_some_iff, Imports.finds_iff]

/-- A search fails exactly if no document that can be reached declares the name. What can be
reached is what can be reached from one of the imported keys. -/
theorem importedType?_eq_none_iff :
    d.importedType? imports name = none
      ↔ ∀ e, imports.Reached d.name d.importOrder e → ∀ id, ¬ e.Declares name id := by
  rw [importedType?, List.findSome?_eq_none_iff]
  simp only [Imports.findThrough?_eq_none_iff]
  constructor
  · intro each e reached
    obtain ⟨key, member, path⟩ := Imports.reached_iff_exists.mp reached
    exact each key member e path
  · intro all key member e path
    exact all e (Imports.reached_iff_exists.mpr ⟨key, member, path⟩)

end Document

/-! ## Looking references up -/

namespace Resolution

/-- What a search found, if it found anything. -/
def ofFound (found : Option DeclId) : Resolution :=
  found.elim .unresolved .declaration

/-- What was found is a declaration exactly if something was found. -/
theorem ofFound_eq_declaration_iff {found : Option DeclId} {id : DeclId} :
    ofFound found = .declaration id ↔ found = some id := by
  cases found <;> simp [ofFound]

/-- What was found has no meaning exactly if nothing was found. -/
theorem ofFound_eq_unresolved_iff {found : Option DeclId} :
    ofFound found = .unresolved ↔ found = none := by
  cases found <;> simp [ofFound]

end Resolution

namespace Scope

variable {d : Document} {imports : Imports} {config : Config} {name : String} {id : DeclId}

/-- The names that a scope searches are those that the document imports, in the order of their
first places. -/
theorem importNames_ofDocument : (ofDocument d imports config).importNames = d.importOrder :=
  distinct_eq_eraseDups _

/-- A scope knows the types of its document by name. -/
theorem symbols_eq_some_iff :
    (ofDocument d imports config).symbols.get? name = some id ↔ name ≠ "" ∧ d.Declares name id :=
  SymbolTable.get?_ofDocument_eq_some_iff

/-- A name is unknown to it exactly if it is missing or not declared. -/
theorem symbols_eq_none_iff :
    (ofDocument d imports config).symbols.get? name = none
      ↔ (name ≠ "" → ∀ id, ¬ d.Declares name id) := by
  rw [ofDocument, SymbolTable.get?_ofDocument, ← Document.findType?_eq_none_iff]
  by_cases missing : name = "" <;> simp [missing]

variable {t : TypeRef}

/-- A reference with a qualifier is looked up in the one document that is supplied under the
qualifier. -/
theorem resolution_lookup_of_qualifier {qualifier : String}
    (qualified : t.qualifier? = some qualifier) :
    ((ofDocument d imports config).lookup t).resolution
      = .ofFound (d.qualifiedType? imports qualifier t.baseName) := by
  rw [lookup, qualified]
  show (lookupQualified _ qualifier t.baseName).resolution = _
  rw [lookupQualified, importNames_ofDocument, Document.qualifiedType?]
  by_cases imported : qualifier ∈ d.importOrder
  · rw [if_pos imported, if_pos imported]
    have supplied : (ofDocument d imports config).imports = imports := rfl
    rw [supplied]
    cases (imports.get? qualifier).bind (·.findType? t.baseName) <;> rfl
  · rw [if_neg imported, if_neg imported]
    rfl

/-- A name that is searched for stands for the first declaration found. The import it was found
through is left out here. -/
theorem resolution_lookupImported (name : String) :
    ((ofDocument d imports config).lookupImported name).resolution
      = .ofFound (d.importedType? imports name) := by
  have paired : (d.importOrder.findSome? fun key =>
        (imports.findThrough? d.name key name).map fun id => (key, id)).map Prod.snd
      = d.importedType? imports name := by
    rw [List.map_findSome?]
    simp [Function.comp_def, Document.importedType?]
  rw [lookupImported, importNames_ofDocument, ← paired]
  have supplied : (ofDocument d imports config).imports = imports := rfl
  have self : (ofDocument d imports config).self = d.name := rfl
  simp only [supplied, self]
  cases d.importOrder.findSome? fun key =>
    (imports.findThrough? d.name key name).map fun id => (key, id) <;> rfl

/-- A reference without a qualifier is looked up among the own types, then the builtin ones, and
then through the imports. -/
theorem resolution_lookup_of_plain (plain : '.' ∉ t.raw.toList) :
    ((ofDocument d imports config).lookup t).resolution
      = match (ofDocument d imports config).symbols.get? t.raw with
        | some id => .declaration id
        | none =>
          if config.isBuiltin t.raw then .builtin
          else .ofFound (d.importedType? imports t.raw) := by
  have imported : ((ofDocument d imports config).lookupImported t.raw).resolution = _ :=
    resolution_lookupImported t.raw
  rw [lookup, TypeRef.qualifier?_eq_none_iff.mpr plain, TypeRef.baseName_of_plain plain, ← imported]
  show (lookupPlain _ t.raw).resolution = _
  rw [lookupPlain]
  cases (ofDocument d imports config).symbols.get? t.raw with
  | some id => rfl
  | none => exact apply_ite _ _ _ _

/-! ## Every text has one meaning -/

/-- The meaning that a reference is given is one that the rules allow.

Proof: the cases are those of the look-up, and each of them is one of the rules. -/
theorem lookup_standsFor (t : TypeRef) :
    StandsFor d imports config t.raw ((ofDocument d imports config).lookup t).resolution := by
  cases qualified : t.qualifier? with
  | some qualifier =>
    obtain ⟨raw, last⟩ := TypeRef.raw_of_qualifier? qualified
    rw [resolution_lookup_of_qualifier qualified, raw]
    cases found : d.qualifiedType? imports qualifier t.baseName with
    | some id =>
      obtain ⟨imported, stored, supplied, declares⟩ := Document.qualifiedType?_eq_some_iff.mp found
      exact .qualified last imported supplied declares
    | none => exact .misqualified last (Document.qualifiedType?_eq_none_iff.mp found)
  | none =>
    have plain := TypeRef.qualifier?_eq_none_iff.mp qualified
    rw [resolution_lookup_of_plain plain]
    cases declared : (ofDocument d imports config).symbols.get? t.raw with
    | some id =>
      obtain ⟨given, declares⟩ := symbols_eq_some_iff.mp declared
      exact .own plain given declares
    | none =>
      have undeclared := symbols_eq_none_iff.mp declared
      cases builtin : config.isBuiltin t.raw with
      | true => exact .builtin plain undeclared builtin
      | false =>
        cases found : d.importedType? imports t.raw with
        | some id =>
          obtain ⟨before, key, after, order, here, passed⟩ :=
            Document.importedType?_eq_some_iff.mp found
          exact .imported plain undeclared builtin order passed here
        | none =>
          have unreached := Document.importedType?_eq_none_iff.mp found
          exact .unknown plain undeclared builtin unreached

/-- The rules allow no other meaning.

Proof: the cases are the rules. The conditions of each exclude those before it, so the look-up
comes to the same place. -/
theorem lookup_of_standsFor {resolution : Resolution}
    (stands : StandsFor d imports config t.raw resolution) :
    ((ofDocument d imports config).lookup t).resolution = resolution := by
  generalize raw : t.raw = text at stands
  cases stands with
  | qualified last imported supplied declares =>
    obtain ⟨qualified, rfl⟩ := TypeRef.parts_of_raw raw last
    rw [resolution_lookup_of_qualifier qualified, Resolution.ofFound_eq_declaration_iff]
    exact Document.qualifiedType?_eq_some_iff.mpr ⟨imported, _, supplied, declares⟩
  | misqualified last nothing =>
    obtain ⟨qualified, rfl⟩ := TypeRef.parts_of_raw raw last
    rw [resolution_lookup_of_qualifier qualified, Resolution.ofFound_eq_unresolved_iff]
    exact Document.qualifiedType?_eq_none_iff.mpr nothing
  | own plain given declares =>
    subst raw
    rw [resolution_lookup_of_plain plain, symbols_eq_some_iff.mpr ⟨given, declares⟩]
  | builtin plain undeclared builtin =>
    subst raw
    rw [resolution_lookup_of_plain plain, symbols_eq_none_iff.mpr undeclared]
    exact if_pos builtin
  | imported plain undeclared notBuiltin order passed found =>
    subst raw
    rw [resolution_lookup_of_plain plain, symbols_eq_none_iff.mpr undeclared]
    simp only [notBuiltin, Bool.false_eq_true, if_false]
    exact Resolution.ofFound_eq_declaration_iff.mpr
      (Document.importedType?_eq_some_iff.mpr ⟨_, _, _, order, found, passed⟩)
  | unknown plain undeclared notBuiltin unreached =>
    subst raw
    rw [resolution_lookup_of_plain plain, symbols_eq_none_iff.mpr undeclared]
    simp only [notBuiltin, Bool.false_eq_true, if_false]
    exact Resolution.ofFound_eq_unresolved_iff.mpr
      (Document.importedType?_eq_none_iff.mpr unreached)

/-- The rules give a reference the meaning that it is looked up to have, and no other. -/
theorem standsFor_iff {resolution : Resolution} :
    StandsFor d imports config t.raw resolution
      ↔ resolution = ((ofDocument d imports config).lookup t).resolution :=
  ⟨fun stands => (lookup_of_standsFor stands).symm, fun same => same ▸ lookup_standsFor t⟩

end Scope

/-! ## Documents with their references resolved -/

/-- A field whose type, if it has one, was given its only meaning. -/
inductive Field.Settled (stands : String → Resolution → Prop) : Field → Field → Prop
  | untyped {f : Field} (absent : f.typeRef = none) : Settled stands f f
  | typed {f : Field} {t : TypeRef} {resolution : Resolution} (given : f.typeRef = some t)
      (only : ∀ other, stands t.raw other ↔ other = resolution) :
      Settled stands f { f with typeRef := some { t with resolution := resolution } }

/-- A declaration with the types of its fields settled. Of an import only the
status may change. -/
inductive Declaration.Settled (stands : String → Resolution → Prop) :
    Declaration → Declaration → Prop
  | importing {i : Import} {status : ImportStatus} :
      Settled stands (.importing i) (.importing { i with status := status })
  | message {m : Message} {fields : List Field}
      (settled : List.Forall₂ (Field.Settled stands) m.fields fields) :
      Settled stands (.message m) (.message { m with fields := fields })
  | enum {e : Enum} : Settled stands (.enum e) (.enum e)

namespace Scope

variable {d : Document} {imports : Imports} {config : Config}

/-- A field is settled by resolution: its type has the one meaning that the rules allow, and
nothing else is changed. -/
theorem resolveField_settled (f : Field) :
    f.Settled (StandsFor d imports config) ((ofDocument d imports config).resolveField f) := by
  cases given : f.typeRef with
  | none =>
    have same : (ofDocument d imports config).resolveField f = f := by
      obtain ⟨⟩ := f
      cases given
      rfl
    rw [same]
    exact .untyped given
  | some t =>
    rw [resolveField, given]
    exact .typed given fun other => standsFor_iff

/-- A declaration is settled by resolution, field by field. -/
theorem resolveDeclaration_settled (used : List String) (declaration : Declaration) :
    declaration.Settled (StandsFor d imports config)
      ((ofDocument d imports config).resolveDeclaration used declaration) := by
  cases declaration with
  | importing i => exact .importing
  | enum e => exact .enum
  | message m =>
    refine .message (List.forall₂_map_right_iff.mpr (List.forall₂_same.mpr ?_))
    intro f _
    exact resolveField_settled f

end Scope

namespace Scope

variable (scope : Scope) (d : Document)

/-- Resolution leaves the names that are imported. -/
theorem importNames_resolveDocument : (scope.resolveDocument d).importNames = d.importNames := by
  rw [Document.importNames, imports_resolveDocument, List.map_map]
  rfl

/-- The references of a resolved document are those of the document, each resolved. -/
theorem typeRefs_resolveDocument :
    (scope.resolveDocument d).typeRefs = d.typeRefs.map scope.resolveRef := by
  have fields : (scope.resolveDocument d).messages.flatMap (·.fields)
      = (d.messages.flatMap (·.fields)).map scope.resolveField := by
    rw [messages_resolveDocument, List.flatMap_map, List.map_flatMap]
    rfl
  rw [Document.typeRefs, Document.typeRefs, fields, List.filterMap_map, List.map_filterMap]
  rfl

/-- The references that are left without a meaning, as the resolved document has
them. -/
theorem filter_typeRefs_resolveDocument :
    (scope.resolveDocument d).typeRefs.filter (·.resolution = .unresolved)
      = (scope.unresolvedRefs d).map scope.resolveRef := by
  rw [typeRefs_resolveDocument, List.filter_map]
  rfl

/-- Besides unresolved references only cycles are found. -/
theorem filter_findings :
    (scope.findings d).filter (·.problem matches .unresolvedType _)
      = (scope.unresolvedRefs d).map fun t => ⟨.unresolvedType t.raw, t.span⟩ := by
  rw [findings, List.filter_append, List.filter_eq_nil_iff.mpr, List.nil_append,
    List.filter_eq_self.mpr]
  · intro finding member
    obtain ⟨t, -, rfl⟩ := List.mem_map.mp member
    rfl
  · intro finding member
    obtain ⟨i, -, rfl⟩ := List.mem_map.mp member
    exact Bool.false_ne_true

end Scope

/-- Resolution gives each reference of a document the one meaning that the rules
allow and changes nothing else but the status of imports, and it reports each
reference that it leaves unresolved once, at its place.

Proof: declarations are settled one by one, since the look-up of a reference gives the one
meaning that the rules have for it. The findings about unresolved references are chosen from
those of the scope, and sorting keeps them the same up to order. -/
theorem resolve_by_rules (d : Document) (imports : Imports) (config : Config) :
    List.Forall₂ (Declaration.Settled (StandsFor d imports config)) d.declarations
        (resolve d imports config).document.declarations
      ∧ ((resolve d imports config).diagnostics.filter
          (·.problem matches .unresolvedType _)).Perm
        (((resolve d imports config).document.typeRefs.filter (·.resolution = .unresolved)).map
          fun t => ⟨.unresolvedType t.raw, t.span⟩) := by
  constructor
  · refine List.forall₂_map_right_iff.mpr (List.forall₂_same.mpr ?_)
    intro declaration _
    exact Scope.resolveDeclaration_settled _ declaration
  · have left := (Scope.ofDocument d imports config).filter_typeRefs_resolveDocument d
    have reported := (Scope.ofDocument d imports config).filter_findings d
    show (List.filter _ (Diagnostic.sorted ((Scope.ofDocument d imports config).findings d))).Perm
      (List.map _ (List.filter _ ((Scope.ofDocument d imports config).resolveDocument d).typeRefs))
    rw [left, List.map_map]
    exact reported ▸ (Diagnostic.sorted_perm _).filter _

end MessageSchema
