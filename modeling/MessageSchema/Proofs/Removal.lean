import MessageSchema.Analysis
import MessageSchema.Proofs.Resolution
import MessageSchema.Proofs.Sorting

/-!
# Unused imports can be removed

An import is used if a reference was found through its name. The first import that
leads to a type decides, so an import that is not used could only matter by coming
before the one that decides; but then it leads to nothing, and nothing is lost with
it. A name may be imported several times: if one of these imports goes, the name
moves to a later place in the order or out of it, which is no more than losing a
name that decides nothing.

What remains is that the declarations behind the removed one move up, and with them
the identities that the document gives to its own types. Identities that were found
through imports belong to other documents and stay, whatever those are called.
-/

namespace MessageSchema

/-! ## A document without one of its declarations -/

/-- The document without the declaration at a place. -/
def Document.without (d : Document) (place : Nat) : Document :=
  { d with declarations := d.declarations.eraseIdx place }

/-- The identity of the same declaration when the one at a place is gone. -/
def DeclId.movedUp (place : Nat) (id : DeclId) : DeclId :=
  { id with index := if place < id.index then id.index - 1 else id.index }

/-- What a reference to a type of the same document stands for when the declaration
at a place is gone. -/
def Resolution.movedUp (place : Nat) : Resolution → Resolution
  | .declaration id => .declaration (id.movedUp place)
  | .builtin => .builtin
  | .unresolved => .unresolved

/-- The type that a reference finds in the symbol table of its own document. -/
def Document.ownType? (d : Document) (t : TypeRef) : Option DeclId :=
  if t.qualifier?.isSome then none else (SymbolTable.ofDocument d).get? t.baseName

/-- A reference of a document when the declaration at a place is gone: one to a type
of the document itself moves with the type. -/
def Document.movedRef (d : Document) (place : Nat) (t : TypeRef) : TypeRef :=
  if (d.ownType? t).isSome then { t with resolution := t.resolution.movedUp place } else t

/-- A field with its type, if it has one, replaced. -/
def Field.mapType (change : TypeRef → TypeRef) (f : Field) : Field :=
  { f with typeRef := f.typeRef.map change }

/-- A declaration with the types of its fields replaced, and nothing else. -/
def Declaration.mapTypes (change : TypeRef → TypeRef) : Declaration → Declaration
  | .importing i => .importing i
  | .message m => .message { m with fields := m.fields.map (Field.mapType change) }
  | .enum e => .enum e

/-- A search passes over repetitions as over nothing. -/
theorem findSome?_eraseDups {α β : Type} [DecidableEq α] (f : α → Option β) (l : List α) :
    l.eraseDups.findSome? f = l.findSome? f := by
  induction l using List.reverseRecOn with
  | nil => rfl
  | append_singleton before x ih =>
    rw [List.eraseDups_append, List.findSome?_append, List.findSome?_append, ih]
    by_cases again : x ∈ before
    · -- where `x` would be asked again, it has had no answer before
      cases found : before.findSome? f with
      | some answer => rfl
      | none =>
        have nothing : f x = none := List.findSome?_eq_none_iff.mp found x again
        simp [List.removeAll, again, nothing]
    · simp [List.removeAll, again, List.eraseDups_cons]

namespace Document

variable {d : Document} {imports : Imports} {before after : List Declaration} {i : Import}

/-! ## What the document declares -/

/-- Without the import the declarations are those before it and those behind it. -/
theorem eraseIdx_of_split (split : d.declarations = before ++ .importing i :: after) :
    (d.without before.length).declarations = before ++ after := by
  rw [without, split, List.eraseIdx_append_of_length_le (Nat.le_refl _), Nat.sub_self,
    List.eraseIdx_cons_zero]

/-- The types stay when an import goes, and those behind it move up.

Proof: before the removed import the numbers of the declarations stay, and behind it each is one
less. -/
theorem types_without (split : d.declarations = before ++ .importing i :: after) :
    (d.without before.length).types
      = d.types.map fun entry => (entry.1, entry.2.movedUp before.length) := by
  have whole : d.declarations.zipIdx
      = before.zipIdx ++ (.importing i, before.length) :: after.zipIdx (before.length + 1) := by
    rw [split, List.zipIdx_append, Nat.zero_add, List.zipIdx_cons]
  have rest : (d.without before.length).declarations.zipIdx
      = before.zipIdx ++ after.zipIdx before.length := by
    rw [eraseIdx_of_split split, List.zipIdx_append, Nat.zero_add]
  rw [types, types, rest, whole, List.filterMap_append, List.filterMap_append, List.map_append,
    List.filterMap_cons_none (by rfl), List.map_filterMap, List.map_filterMap]
  congr 1
  · apply List.filterMap_congr
    rintro ⟨declaration, index⟩ member
    have ahead : ¬ before.length < index := by
      have := List.snd_lt_add_of_mem_zipIdx member
      simp only at this
      omega
    simp [DeclId.movedUp, ahead, without, Function.comp_def]
  · rw [List.zipIdx_succ, List.filterMap_map]
    apply List.filterMap_congr
    rintro ⟨declaration, index⟩ member
    have behind : before.length < index + 1 :=
      Nat.lt_succ_of_le (List.le_snd_of_mem_zipIdx member)
    simp [DeclId.movedUp, behind, without, Function.comp_def]

/-- A name has the identity that it had, moved up. An import declares no name, so the first
declaration of a name is the same. -/
theorem symbols_without (split : d.declarations = before ++ .importing i :: after) (name : String) :
    (SymbolTable.ofDocument (d.without before.length)).get? name
      = ((SymbolTable.ofDocument d).get? name).map (DeclId.movedUp before.length) := by
  have found : (d.without before.length).findType? name
      = (d.findType? name).map (DeclId.movedUp before.length) := by
    rw [findType?, findType?, types_without split, List.find?_map, Option.map_map, Option.map_map]
    rfl
  rw [SymbolTable.get?_ofDocument, SymbolTable.get?_ofDocument, found]
  split <;> rfl

/-- An import has no references, so all of them remain. -/
theorem typeRefs_without (split : d.declarations = before ++ .importing i :: after) :
    (d.without before.length).typeRefs = d.typeRefs := by
  have messages : (d.without before.length).messages = d.messages := by
    rw [Document.messages, Document.messages, eraseIdx_of_split split, split,
      List.filterMap_append, List.filterMap_append]
    rfl
  rw [typeRefs, typeRefs, messages]

/-! ## What the document imports -/

/-- The names that are imported are the same but for the one that was removed. -/
theorem importNames_of_split (split : d.declarations = before ++ .importing i :: after) :
    ∃ first last, d.importNames = first ++ i.name :: last
      ∧ (d.without before.length).importNames = first ++ last := by
  refine ⟨(before.filterMap Declaration.import?).map (·.name),
    (after.filterMap Declaration.import?).map (·.name), ?_, ?_⟩
  · rw [importNames, Document.imports, split, List.filterMap_append, List.map_append]
    rfl
  · rw [importNames, Document.imports, eraseIdx_of_split split, List.filterMap_append,
      List.map_append]

/-- The names that are searched are those imported, missing names left out. -/
theorem mem_importOrder {key : String} : key ∈ d.importOrder ↔ key ∈ d.importNames ∧ key ≠ "" := by
  rw [importOrder, List.mem_eraseDups, List.mem_filter, decide_eq_true_eq]

/-- No name is searched that was not searched before. -/
theorem importOrder_without_subset (split : d.declarations = before ++ .importing i :: after)
    {key : String} (member : key ∈ (d.without before.length).importOrder) : key ∈ d.importOrder := by
  obtain ⟨first, last, whole, rest⟩ := importNames_of_split split
  rw [mem_importOrder, rest, List.mem_append] at member
  rw [mem_importOrder, whole, List.mem_append, List.mem_cons]
  exact ⟨member.1.imp_right .inr, member.2⟩

/-- Every other name is still imported. -/
theorem mem_importOrder_without (split : d.declarations = before ++ .importing i :: after)
    {key : String} (other : key ≠ i.name) :
    key ∈ (d.without before.length).importOrder ↔ key ∈ d.importOrder := by
  obtain ⟨first, last, whole, rest⟩ := importNames_of_split split
  rw [mem_importOrder, mem_importOrder, whole, rest]
  simp [other]

/-- A qualified name is not looked up behind the removed import, unless in vain. -/
theorem qualifiedType?_without (split : d.declarations = before ++ .importing i :: after)
    {qualifier name : String}
    (passed : ∀ id ∈ d.qualifiedType? imports qualifier name, qualifier ≠ i.name) :
    (d.without before.length).qualifiedType? imports qualifier name
      = d.qualifiedType? imports qualifier name := by
  by_cases other : qualifier = i.name
  · have nothing : d.qualifiedType? imports qualifier name = none :=
      Option.eq_none_iff_forall_not_mem.mpr fun id found => passed id found other
    rw [nothing]
    rw [qualifiedType?_eq_none_iff] at nothing ⊢
    exact fun member => nothing (importOrder_without_subset split member)
  · simp only [qualifiedType?, mem_importOrder_without split other]

/-- The first import that leads to a type of a name, and the type. -/
def importRoute? (d : Document) (imports : Imports) (name : String) : Option (String × DeclId) :=
  d.importOrder.findSome? fun key =>
    (imports.findThrough? d.name key name).map fun id => (key, id)

/-- The removed import did not decide, so another one does as before, or none.

Proof: the names of the imports are the same up to the removed one. If one before it leads to
the type, it decides in both lists. Otherwise the removed one would have been the next, and it
did not lead there. -/
theorem importRoute?_without (split : d.declarations = before ++ .importing i :: after)
    {name : String} (passed : ∀ route ∈ d.importRoute? imports name, route.1 ≠ i.name) :
    (d.without before.length).importRoute? imports name = d.importRoute? imports name := by
  obtain ⟨first, last, whole, rest⟩ := importNames_of_split split
  let leads := fun key => (imports.findThrough? d.name key name).map fun id => (key, id)
  have route (e : Document) (self : e.name = d.name) :
      e.importRoute? imports name = (e.importNames.filter (· ≠ "")).findSome? leads := by
    rw [importRoute?, importOrder, self, findSome?_eraseDups]
  have here := route d rfl
  rw [whole, List.filter_append, List.findSome?_append] at here
  rw [route (d.without before.length) rfl, rest, List.filter_append, List.findSome?_append]
  by_cases named : i.name = ""
  · rw [here, List.filter_cons_of_neg (by simp [named])]
  · rw [List.filter_cons_of_pos (by simp [named])] at here
    cases earlier : (first.filter (· ≠ "")).findSome? leads with
    | some found => rw [here, earlier, Option.some_or, Option.some_or]
    | none =>
      rw [earlier, Option.none_or, List.findSome?_cons] at here
      cases found : imports.findThrough? d.name i.name name with
      | some id =>
        have decides : d.importRoute? imports name = some (i.name, id) := by
          rw [here]
          simp [leads, found]
        exact absurd rfl (passed _ decides)
      | none =>
        rw [here]
        simp [leads, found]

end Document

/-! ## What references stand for -/

/-- What a reference stands for that is found by a route, if there is one: the type at its end,
found through the import at its beginning. -/
def Lookup.ofRoute : Option (String × DeclId) → Lookup
  | some (key, id) => ⟨.declaration id, some key⟩
  | none => .unresolved

/-- If a route can only be lost together with the import that it begins with, then what is not
found through this import stays as it is. -/
theorem Lookup.ofRoute_eq {route other : Option (String × DeclId)} {name : String}
    (kept : (∀ found ∈ route, found.1 ≠ name) → other = route)
    (passed : (ofRoute route).via ≠ some name) : ofRoute other = ofRoute route := by
  have elsewhere : ∀ found ∈ route, found.1 ≠ name := by
    rintro ⟨key, id⟩ found same
    rw [Option.mem_def.mp found] at passed
    exact passed (congrArg some same)
  rw [kept elsewhere]

namespace Scope

variable {d : Document} {imports : Imports} {config : Config} {before after : List Declaration}
  {i : Import}

/-- A qualified name is found through its qualifier. -/
theorem lookupQualified_eq (qualifier name : String) :
    (ofDocument d imports config).lookupQualified qualifier name
      = .ofRoute ((d.qualifiedType? imports qualifier name).map fun id => (qualifier, id)) := by
  rw [lookupQualified, importNames_ofDocument, Document.qualifiedType?]
  by_cases imported : qualifier ∈ d.importOrder
  · rw [if_pos imported, if_pos imported]
    have supplied : (ofDocument d imports config).imports = imports := rfl
    rw [supplied]
    cases (imports.get? qualifier).bind (·.findType? name) with
    | some id => rfl
    | none => rfl
  · rw [if_neg imported, if_neg imported]
    rfl

/-- A name without a qualifier is found through the first import that leads to it. -/
theorem lookupImported_eq (name : String) :
    (ofDocument d imports config).lookupImported name = .ofRoute (d.importRoute? imports name) := by
  rw [lookupImported, importNames_ofDocument]
  rfl

/-- A qualified name that is not found through the removed import is looked up as before. -/
theorem lookupQualified_without (split : d.declarations = before ++ .importing i :: after)
    {qualifier name : String}
    (passed : ((ofDocument d imports config).lookupQualified qualifier name).via ≠ some i.name) :
    (ofDocument (d.without before.length) imports config).lookupQualified qualifier name
      = (ofDocument d imports config).lookupQualified qualifier name := by
  rw [lookupQualified_eq] at passed
  rw [lookupQualified_eq, lookupQualified_eq]
  refine Lookup.ofRoute_eq (fun elsewhere => ?_) passed
  rw [Document.qualifiedType?_without split]
  exact fun id found => elsewhere (qualifier, id) (Option.mem_map_of_mem _ found)

/-- So is a name without a qualifier. -/
theorem lookupImported_without (split : d.declarations = before ++ .importing i :: after)
    {name : String}
    (passed : ((ofDocument d imports config).lookupImported name).via ≠ some i.name) :
    (ofDocument (d.without before.length) imports config).lookupImported name
      = (ofDocument d imports config).lookupImported name := by
  rw [lookupImported_eq] at passed
  rw [lookupImported_eq, lookupImported_eq]
  exact Lookup.ofRoute_eq (Document.importRoute?_without split) passed

/-- A reference that was not found through the removed import is looked up as before;
one to a type of the document itself finds it where it has moved to.

Proof: a qualified name is looked up as any name without the import would be. A plain one is
looked up first in the symbols, which have moved up, then among the builtins, which have not,
and last through the imports that are left. -/
theorem lookup_without (split : d.declarations = before ++ .importing i :: after) {t : TypeRef}
    (passed : ((ofDocument d imports config).lookup t).via ≠ some i.name) :
    (ofDocument (d.without before.length) imports config).lookup t
      = if (d.ownType? t).isSome then
          { (ofDocument d imports config).lookup t with
            resolution := ((ofDocument d imports config).lookup t).resolution.movedUp before.length }
        else (ofDocument d imports config).lookup t := by
  unfold lookup at passed ⊢
  cases qualified : t.qualifier? with
  | some qualifier =>
    rw [qualified] at passed
    have imported : d.ownType? t = none := by rw [Document.ownType?, qualified]; rfl
    rw [imported]
    exact lookupQualified_without split passed
  | none =>
    rw [qualified] at passed
    have own : d.ownType? t = (SymbolTable.ofDocument d).get? t.baseName := by
      rw [Document.ownType?, qualified]
      rfl
    have symbols (e : Document) :
        (ofDocument e imports config).symbols = SymbolTable.ofDocument e := rfl
    simp only [lookupPlain, symbols] at passed ⊢
    rw [own, Document.symbols_without split]
    cases declared : (SymbolTable.ofDocument d).get? t.baseName with
    | some id => rfl
    | none =>
      rw [declared] at passed
      have same : (ofDocument (d.without before.length) imports config).config = config := rfl
      have there : (ofDocument d imports config).config = config := rfl
      rw [there] at passed
      simp only [Option.map_none, same, there]
      by_cases builtin : config.isBuiltin t.baseName = true
      · simp [builtin]
      · rw [if_neg builtin] at passed
        simpa [builtin] using lookupImported_without split passed

/-! ## The resolved document -/

/-- An import through which no reference of the document was found. -/
def Unused (scope : Scope) (d : Document) (i : Import) : Prop :=
  ∀ t ∈ d.typeRefs, (scope.lookup t).via ≠ some i.name

/-- An import that is recorded as unused is one of the document, and it is unused.

Proof: the declaration at the place was an import before it was resolved, and it was recorded as
unused because its name is not among those through which references were found. -/
theorem exists_unused {place : Nat} {target : Import}
    (here : (resolve d imports config).document.declarations[place]? = some (.importing target))
    (unused : target.status = .found false) :
    ∃ before i after, d.declarations = before ++ .importing i :: after ∧ before.length = place
      ∧ (ofDocument d imports config).Unused d i := by
  let scope := ofDocument d imports config
  have mapped : (d.declarations.map (scope.resolveDeclaration (scope.usedImports d)))[place]?
      = some (.importing target) := here
  rw [List.getElem?_map, Option.map_eq_some_iff] at mapped
  obtain ⟨declaration, there, resolved⟩ := mapped
  obtain ⟨inside, same⟩ := List.getElem?_eq_some_iff.mp there
  cases declaration with
  | message m => cases resolved
  | enum e => cases resolved
  | importing i =>
    cases resolved
    have split : d.declarations
        = d.declarations.take place ++ .importing i :: d.declarations.drop (place + 1) := by
      rw [← same, ← List.drop_eq_getElem_cons inside, List.take_append_drop]
    refine ⟨_, i, _, split, List.length_take_of_le (Nat.le_of_lt inside), ?_⟩
    intro t member through
    have used : i.name ∈ scope.usedImports d := by
      rw [usedImports, distinct_eq_eraseDups, List.mem_eraseDups]
      exact List.mem_filterMap.mpr ⟨t, member, through⟩
    have status : scope.importStatus (scope.usedImports d) i = .found false := unused
    rw [importStatus] at status
    split at status
    · cases status
    · split at status
      · simp [used] at status
      · cases status

section Removed

variable (split : d.declarations = before ++ .importing i :: after)
  (unused : (ofDocument d imports config).Unused d i)

include split unused

/-- The same imports are used: each reference is found through the same name. -/
theorem usedImports_without :
    (ofDocument (d.without before.length) imports config).usedImports (d.without before.length)
      = (ofDocument d imports config).usedImports d := by
  rw [usedImports, usedImports, Document.typeRefs_without split]
  congr 1
  apply List.filterMap_congr
  intro t member
  rw [lookup_without split (unused t member)]
  split <;> rfl

/-- A reference to a type of the document moves with the type, and every other one stands for
what it stood for. -/
theorem resolveRef_without {t : TypeRef} (member : t ∈ d.typeRefs) :
    (ofDocument (d.without before.length) imports config).resolveRef t
      = d.movedRef before.length ((ofDocument d imports config).resolveRef t) := by
  have own : d.ownType? ((ofDocument d imports config).resolveRef t) = d.ownType? t := rfl
  rw [resolveRef, lookup_without split (unused t member), Document.movedRef, own]
  split <;> rfl

/-- A field resolves as it did, with its type moved. Its type is one of the references of the
document, none of which was found through the removed import. -/
theorem resolveField_without {m : Message} {f : Field} (message : .message m ∈ d.declarations)
    (field : f ∈ m.fields) :
    (ofDocument (d.without before.length) imports config).resolveField f
      = ((ofDocument d imports config).resolveField f).mapType (d.movedRef before.length) := by
  have types : f.typeRef.map (ofDocument (d.without before.length) imports config).resolveRef
      = (f.typeRef.map (ofDocument d imports config).resolveRef).map
        (d.movedRef before.length) := by
    cases given : f.typeRef with
    | none => rfl
    | some t =>
      have member : t ∈ d.typeRefs :=
        List.mem_filterMap.mpr
          ⟨f, List.mem_flatMap.mpr ⟨m, mem_messages.mpr message, field⟩, given⟩
      exact congrArg some (resolveRef_without split unused member)
  rw [resolveField, types]
  rfl

/-- A declaration resolves as it did, with the types of its fields moved. -/
theorem resolveDeclaration_without (used : List String) {declaration : Declaration}
    (member : declaration ∈ d.declarations) :
    (ofDocument (d.without before.length) imports config).resolveDeclaration used declaration
      = ((ofDocument d imports config).resolveDeclaration used declaration).mapTypes
        (d.movedRef before.length) := by
  cases declaration with
  | importing other => rfl
  | enum e => rfl
  | message m =>
    have fields : m.fields.map (ofDocument (d.without before.length) imports config).resolveField
        = (m.fields.map (ofDocument d imports config).resolveField).map
          (Field.mapType (d.movedRef before.length)) := by
      rw [List.map_map]
      exact List.map_congr_left fun f field => resolveField_without split unused member field
    rw [resolveDeclaration, fields]
    rfl

/-- The same references are left without a meaning. What moves stays resolved. -/
theorem unresolvedRefs_without :
    (ofDocument (d.without before.length) imports config).unresolvedRefs (d.without before.length)
      = (ofDocument d imports config).unresolvedRefs d := by
  rw [unresolvedRefs, unresolvedRefs, Document.typeRefs_without split]
  apply List.filter_congr
  intro t member
  rw [lookup_without split (unused t member)]
  split
  · cases ((ofDocument d imports config).lookup t).resolution <;> rfl
  · rfl

end Removed

end Scope

/-- An import that is recorded as unused can be removed. All other declarations are
resolved as before: every import has the same status, and every reference stands for the
same, where a type of the document itself is counted without the removed import. The
references that stand for nothing are reported as before.

Proof: the removed import was not the one through which any reference was found, so each
reference is looked up as before, up to the identities that move with their declarations.
Declarations are then compared one by one, and the unresolved references are the same list. -/
theorem unused_import_removable (d : Document) (imports : Imports) (config : Config) (place : Nat)
    (target : Import)
    (here : (resolve d imports config).document.declarations[place]? = some (.importing target))
    (unused : target.status = .found false) :
    (resolve (d.without place) imports config).document.declarations
        = ((resolve d imports config).document.declarations.eraseIdx place).map
          (Declaration.mapTypes (d.movedRef place))
      ∧ (resolve (d.without place) imports config).diagnostics.filter
          (·.problem matches .unresolvedType _)
        = (resolve d imports config).diagnostics.filter (·.problem matches .unresolvedType _) := by
  obtain ⟨before, i, after, split, rfl, unread⟩ := Scope.exists_unused here unused
  let whole := Scope.ofDocument d imports config
  let fewer := Scope.ofDocument (d.without before.length) imports config
  constructor
  · show (d.declarations.eraseIdx before.length).map
        (fewer.resolveDeclaration (fewer.usedImports (d.without before.length)))
      = ((d.declarations.map (whole.resolveDeclaration (whole.usedImports d))).eraseIdx
        before.length).map (Declaration.mapTypes (d.movedRef before.length))
    rw [List.eraseIdx_map, List.map_map, Scope.usedImports_without split unread]
    apply List.map_congr_left
    intro declaration member
    exact Scope.resolveDeclaration_without split unread _ (List.mem_of_mem_eraseIdx member)
  · have reported : (fewer.findings (d.without before.length)).filter
          (·.problem matches .unresolvedType _)
        = (whole.findings d).filter (·.problem matches .unresolvedType _) := by
      refine (fewer.filter_findings _).trans (Eq.trans ?_ (whole.filter_findings d).symm)
      rw [Scope.unresolvedRefs_without split unread]
    show (Diagnostic.sorted (fewer.findings (d.without before.length))).filter _
      = (Diagnostic.sorted (whole.findings d)).filter _
    rw [Diagnostic.filter_sorted, Diagnostic.filter_sorted, reported]

/-- A source that imports one document twice and needs it for nothing: the type
that both documents have is found in the other one. -/
def spareSource : String :=
  "import base;\nimport spare;\nmessage M \x7b field t: T = 1; field n: N = 2; field u: U = 3; \x7d\n"
    ++ "import spare;\nenum N \x7b \x7d"

/-- Two documents with a type of the same name. -/
def spareImports : Imports :=
  (Imports.empty.insert "base"
    (analyze "message T \x7b \x7d" "base" .empty .standard).document).insert "spare"
    (analyze "import base;\nenum T \x7b \x7d" "spare" .empty .standard).document

/-- Behind the removed import stand the other one of its name, which stays unused, and
a type, which moves up. -/
theorem spareSource_trimmed :
    let d := (parseSource spareSource).tree.toDocument "main"
    ∃ target, (resolve d spareImports .standard).document.declarations[1]? = some (.importing target)
      ∧ target.status = .found false
      ∧ ((resolve (d.without 1) spareImports .standard).document.declarations
          = ((resolve d spareImports .standard).document.declarations.eraseIdx 1).map
            (Declaration.mapTypes (d.movedRef 1))
        ∧ (resolve (d.without 1) spareImports .standard).diagnostics.filter
            (·.problem matches .unresolvedType _)
          = (resolve d spareImports .standard).diagnostics.filter
            (·.problem matches .unresolvedType _))
      ∧ (resolve d spareImports .standard).document.typeRefs.map (·.resolution)
        = [.declaration ⟨"base", 0, .message⟩, .declaration ⟨"main", 4, .enum⟩, .unresolved]
      ∧ (resolve (d.without 1) spareImports .standard).document.typeRefs.map (·.resolution)
        = [.declaration ⟨"base", 0, .message⟩, .declaration ⟨"main", 3, .enum⟩, .unresolved] := by
  intro d
  have present : ((resolve d spareImports .standard).document.declarations[1]?.bind
      Declaration.import?).map (·.status) = some (.found false) := by decide +kernel
  obtain ⟨target, found, unused⟩ := Option.map_eq_some_iff.mp present
  obtain ⟨declaration, here, same⟩ := Option.bind_eq_some_iff.mp found
  rw [Declaration.import?_eq_some.mp same] at here
  exact ⟨target, here, unused,
    unused_import_removable d spareImports .standard 1 target here unused,
    by decide +kernel, by decide +kernel⟩

end MessageSchema
