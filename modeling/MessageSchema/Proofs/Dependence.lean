import MessageSchema.Analysis
import MessageSchema.Proofs.Cycles

/-!
# What an analysis depends on

A host that has changed a supplied document wants to know which other documents it
has to analyse again. It is enough to look at imports: the keys that a document
needs are those it imports, those that the documents supplied under them import,
and so on. Whatever is supplied under other keys, the outcome of an analysis is the
same, to the last finding.

Supplied documents are read in four places: where a qualified reference is looked
up, where a type is searched for through an import, where an import is followed to
see whether it leads back, and where the status of an import is recorded. The
second and third are walks, of any length, through graphs that the supplied
documents make. Both begin at a key that is needed, and from such a key they come
only to keys that are needed.
-/

namespace MessageSchema

/-- A search of a list asks only about its members. -/
theorem findSome?_congr {α β : Type} {l : List α} {f g : α → Option β}
    (same : ∀ x ∈ l, f x = g x) : l.findSome? f = l.findSome? g := by
  rw [← List.head?_filterMap, ← List.head?_filterMap, List.filterMap_congr same]

/-! ## Walks through graphs that agree -/

namespace Graph

variable {α : Type} [DecidableEq α] {g other : Graph α} {among : α → Prop}

/-- Nodes that lead only to each other. -/
def Closed (g : Graph α) (among : α → Prop) : Prop :=
  ∀ n, among n → ∀ next ∈ g.successors n, among next

/-- A path from a node does not leave a set of nodes that lead only to each other. -/
theorem Reaches.stays (closed : g.Closed among) {avoiding : List α} {a b : α}
    (reaches : g.Reaches avoiding a b) (start : among a) : among b := by
  obtain ⟨-, path⟩ := reaches
  induction path with
  | refl => exact start
  | tail _ edge ih => exact closed _ ih _ edge.1

/-- A walk sees only the nodes that it comes to: two graphs that agree on nodes
which lead only to each other are walked alike from there. -/
theorem walkFrom_of_agree (closed : g.Closed among)
    (agree : ∀ n, among n → g.successors n = other.successors n) (visited : List α)
    {pending : List α} (start : ∀ n ∈ pending, among n) :
    g.walkFrom visited pending = other.walkFrom visited pending := by
  fun_induction walkFrom g visited pending with
  | case1 visited => rw [walkFrom]
  | case2 visited n rest seen ih =>
    rw [walkFrom, dif_pos seen]
    exact ih fun m member => start m (List.mem_cons_of_mem n member)
  | case3 visited n rest new _ ih =>
    have here : among n := start n List.mem_cons_self
    rw [walkFrom, dif_neg new, ← agree n here, ih]
    intro m member
    rcases List.mem_append.mp member with follows | later
    · exact closed n here m follows
    · exact start m (List.mem_cons_of_mem n later)

end Graph

/-! ## The keys that are needed -/

namespace Imports

/-- The keys that a document needs: the smallest collection that has all names it
imports, and with a key all names that the document supplied under it imports. -/
inductive Needed (imports : Imports) (d : Document) : String → Prop
  | direct {key : String} (member : key ∈ d.importNames) : Needed imports d key
  | through {key next : String} (needed : Needed imports d key) (link : imports.Links key next) :
      Needed imports d next

/-- What a document imports is needed. -/
theorem needed_of_mem_imports {d : Document} {i : Import} (imports : Imports)
    (member : i ∈ d.imports) : imports.Needed d i.name :=
  .direct (List.mem_map_of_mem member)

/-- What a search through the imports begins with is needed. -/
theorem needed_of_mem_importOrder {d : Document} {key : String} (imports : Imports)
    (member : key ∈ d.importOrder) : imports.Needed d key := by
  rw [Document.importOrder, List.mem_eraseDups] at member
  exact .direct (List.mem_filter.mp member).1

/-- Two collections of supplied documents that do not differ under any key that a
document needs: the same document is supplied there, or none in both. -/
def AgreeFor (d : Document) (first second : Imports) : Prop :=
  ∀ key, first.Needed d key → first.get? key = second.get? key

/-- It is safe to supply a document under a key that is not needed. -/
theorem agreeFor_insert {imports : Imports} {d : Document} {key : String}
    (unneeded : ¬ imports.Needed d key) (e : Document) :
    AgreeFor d imports (imports.insert key e) := by
  intro other needed
  have apart : key ≠ other := by
    rintro rfl
    exact unneeded needed
  show imports.documents[other]? = (imports.documents.insert key e)[other]?
  rw [Std.ExtTreeMap.getElem?_insert, if_neg]
  simpa using apart

namespace AgreeFor

variable {d : Document} {first second : Imports} {key : String}

/-- Walks from a needed key through graphs in which a document leads, at most, to
what it imports. They are the same and visit only needed keys. -/
theorem reachedFrom_eq (agree : AgreeFor d first second) {g other : Graph String}
    {leads : Document → List String} (imported : ∀ e, leads e ⊆ e.importNames)
    (here : ∀ key, g.successors key = ((first.get? key).map leads).getD [])
    (there : ∀ key, other.successors key = ((second.get? key).map leads).getD [])
    (avoiding : List String) (needed : first.Needed d key) :
    g.reachedFrom avoiding key = other.reachedFrom avoiding key
      ∧ ∀ last ∈ g.reachedFrom avoiding key, first.Needed d last := by
  have closed : g.Closed (first.Needed d) := by
    intro key needed next follows
    rw [here] at follows
    cases stored : first.get? key with
    | none => simp [stored] at follows
    | some e =>
      rw [stored, Option.map_some, Option.getD_some] at follows
      exact needed.through ⟨e, stored, imported e follows⟩
  constructor
  · refine Graph.walkFrom_of_agree closed ?_ avoiding ?_
    · intro key needed
      rw [here, there, agree key needed]
    · intro start member
      exact List.mem_singleton.mp member ▸ needed
  · intro last member
    exact ((Graph.mem_reachedFrom_iff _ _ _ _).mp member).stays closed needed

/-- A search through a needed key finds the same. -/
theorem findThrough?_eq (agree : AgreeFor d first second) (needed : first.Needed d key)
    (home name : String) :
    first.findThrough? home key name = second.findThrough? home key name := by
  have imported : ∀ e : Document,
      (if e.name = home then [] else e.importNames) ⊆ e.importNames := by
    intro e
    split
    · exact List.nil_subset _
    · exact List.Subset.refl _
  obtain ⟨same, visited⟩ := agree.reachedFrom_eq imported (first.successors_graphOutside home)
    (second.successors_graphOutside home) [home] needed
  rw [findThrough?, findThrough?, ← same]
  apply findSome?_congr
  intro last member
  rw [findTypeOutside?, findTypeOutside?, agree last (visited last member)]

/-- A needed key leads back in both or in none. -/
theorem leadsBack_eq (agree : AgreeFor d first second) (needed : first.Needed d key)
    (home : String) : first.leadsBack home key = second.leadsBack home key := by
  obtain ⟨same, visited⟩ := agree.reachedFrom_eq (fun e => List.Subset.refl e.importNames)
    first.successors_graph second.successors_graph [] needed
  rw [leadsBack, leadsBack, ← same, Bool.eq_iff_iff, List.any_eq_true, List.any_eq_true]
  refine exists_congr fun last => and_congr_right fun member => ?_
  rw [isSelf, isSelf, agree last (visited last member)]

end AgreeFor

end Imports

/-! ## Resolution with the one or the other -/

namespace Scope

variable {d : Document} {first second : Imports} {config : Config}

/-- A qualified name is looked up alike where the needed documents agree: only the document
under an imported key is asked. -/
theorem lookupQualified_of_agree (agree : Imports.AgreeFor d first second)
    (qualifier name : String) :
    (ofDocument d first config).lookupQualified qualifier name
      = (ofDocument d second config).lookupQualified qualifier name := by
  rw [lookupQualified, lookupQualified, importNames_ofDocument, importNames_ofDocument]
  by_cases imported : qualifier ∈ d.importOrder
  · have supplied : (ofDocument d first config).imports.get? qualifier
        = (ofDocument d second config).imports.get? qualifier :=
      agree qualifier (first.needed_of_mem_importOrder imported)
    rw [if_pos imported, if_pos imported, supplied]
  · rw [if_neg imported, if_neg imported]

/-- A name is searched for alike where the needed documents agree. Every search begins at a key
that is needed, and does not leave these keys. -/
theorem lookupImported_of_agree (agree : Imports.AgreeFor d first second) (name : String) :
    (ofDocument d first config).lookupImported name
      = (ofDocument d second config).lookupImported name := by
  have found : (d.importOrder.findSome? fun key =>
        (first.findThrough? d.name key name).map fun id => (key, id))
      = d.importOrder.findSome? fun key =>
        (second.findThrough? d.name key name).map fun id => (key, id) := by
    apply findSome?_congr
    intro key member
    rw [agree.findThrough?_eq (first.needed_of_mem_importOrder member)]
  have supplied (imports : Imports) : (ofDocument d imports config).imports = imports := rfl
  have self (imports : Imports) : (ofDocument d imports config).self = d.name := rfl
  simp only [lookupImported, importNames_ofDocument, supplied, self, found]

/-- A reference is looked up alike where the needed documents agree, qualified or not. -/
theorem lookup_of_agree (agree : Imports.AgreeFor d first second) (t : TypeRef) :
    (ofDocument d first config).lookup t = (ofDocument d second config).lookup t := by
  unfold lookup
  split
  · exact lookupQualified_of_agree agree _ _
  · rw [lookupPlain, lookupPlain, lookupImported_of_agree agree]
    rfl

/-- The status of an import depends on what is supplied under its own name, and that key is
needed. -/
theorem importStatus_of_agree (agree : Imports.AgreeFor d first second) (used : List String)
    {i : Import} (member : i ∈ d.imports) :
    (ofDocument d first config).importStatus used i
      = (ofDocument d second config).importStatus used i := by
  have supplied : (ofDocument d first config).imports.get? i.name
      = (ofDocument d second config).imports.get? i.name :=
    agree i.name (first.needed_of_mem_imports member)
  rw [importStatus, importStatus, supplied]

/-- A declaration is resolved alike where the needed documents agree. An import has its status
recorded, a message its fields, and an enum holds nothing to resolve. -/
theorem resolveDeclaration_of_agree (agree : Imports.AgreeFor d first second)
    (used : List String) {declaration : Declaration} (member : declaration ∈ d.declarations) :
    (ofDocument d first config).resolveDeclaration used declaration
      = (ofDocument d second config).resolveDeclaration used declaration := by
  cases declaration with
  | importing i =>
    have among : i ∈ d.imports := List.mem_filterMap.mpr ⟨_, member, rfl⟩
    rw [resolveDeclaration, resolveDeclaration, importStatus_of_agree agree used among]
  | message m =>
    have fields : (ofDocument d first config).resolveField
        = (ofDocument d second config).resolveField := by
      funext f
      have refs : (ofDocument d first config).resolveRef
          = (ofDocument d second config).resolveRef := by
        funext t
        rw [resolveRef, resolveRef, lookup_of_agree agree]
      rw [resolveField, resolveField, refs]
    rw [resolveDeclaration, resolveDeclaration, fields]
  | enum e => rfl

end Scope

/-- A document is resolved alike against documents that differ only where it does
not need them.

Proof: the look-ups agree by hypothesis on what is needed, and every part of the result is
computed from look-ups: the declarations, the imports that lead back, and the findings. -/
theorem resolve_of_agree {d : Document} {first second : Imports}
    (agree : Imports.AgreeFor d first second) (config : Config) :
    resolve d first config = resolve d second config := by
  let here := Scope.ofDocument d first config
  let there := Scope.ofDocument d second config
  have lookups : here.lookup = there.lookup := funext (Scope.lookup_of_agree agree)
  have used : here.usedImports d = there.usedImports d := by
    rw [Scope.usedImports, Scope.usedImports, lookups]
  have documents : here.resolveDocument d = there.resolveDocument d := by
    rw [Scope.resolveDocument, Scope.resolveDocument, used]
    congr 1
    exact List.map_congr_left fun e member => Scope.resolveDeclaration_of_agree agree _ member
  have cycles : here.cyclicImports d = there.cyclicImports d := by
    apply List.filter_congr
    intro i member
    have back : here.imports.leadsBack here.self i.name
        = there.imports.leadsBack there.self i.name :=
      agree.leadsBack_eq (first.needed_of_mem_imports member) d.name
    rw [Scope.isCyclic, Scope.isCyclic, back]
  have findings : here.findings d = there.findings d := by
    rw [Scope.findings, Scope.findings, cycles, Scope.unresolvedRefs, Scope.unresolvedRefs, lookups]
  show Resolved.mk (here.resolveDocument d) here.symbols (here.findings d)
    = Resolved.mk (there.resolveDocument d) there.symbols (there.findings d)
  rw [documents, findings]
  rfl

/-- What is supplied under keys that a document does not need has no influence on its
analysis: document, symbols and findings are all the same.

Proof: the stages of an analysis differ in nothing but the resolution, and resolution asks for
needed keys only. -/
theorem analysis_ignores_unneeded (source name : String) (config : Config) (first second : Imports)
    (agree : Imports.AgreeFor ((parseSource source).tree.toDocument name) first second) :
    analyze source name first config = analyze source name second config := by
  have resolved := resolve_of_agree agree config
  have stages : Stages.ofSource source name first config
      = Stages.ofSource source name second config :=
    congrArg (Stages.mk (tokenize source) (parseSource source)
      ((parseSource source).tree.toDocument name) · config) resolved
  rw [analyze, analyze, stages]

/-- A source that imports a document, finds one type there and another behind it. -/
def ringSource : String :=
  "import base;\nmessage M \x7b field t: base.T = 1; field u: U = 2; \x7d"

/-- Two documents that import each other. -/
def ringImports : Imports :=
  (Imports.empty.insert "base"
    (analyze "import mid;\nmessage T \x7b \x7d" "base" .empty .standard).document).insert "mid"
    (analyze "import base;\nenum U \x7b \x7d" "mid" .empty .standard).document

/-- A document of the same name as the one that is analysed, with the types that it
refers to. -/
def strayDocument : Document :=
  (analyze "import base;\nenum T \x7b \x7d\nmessage U \x7b \x7d" "main" .empty .standard).document

/-- The circle of imports does not come to the key of the stray document. -/
theorem ringSource_ignores_stray :
    Imports.AgreeFor ((parseSource ringSource).tree.toDocument "main") ringImports
        (ringImports.insert "stray" strayDocument)
      ∧ ringImports.get? "stray" ≠ (ringImports.insert "stray" strayDocument).get? "stray"
      ∧ analyze ringSource "main" ringImports .standard
        = analyze ringSource "main" (ringImports.insert "stray" strayDocument) .standard := by
  have direct : ((parseSource ringSource).tree.toDocument "main").importNames = ["base"] := by
    decide +kernel
  have closed : ∀ key ∈ ["base", "mid"], ∀ e ∈ ringImports.get? key, ∀ next ∈ e.importNames,
      next ∈ ["base", "mid"] := by decide +kernel
  have within : ∀ key, ringImports.Needed ((parseSource ringSource).tree.toDocument "main") key →
      key ∈ ["base", "mid"] := by
    intro key needed
    induction needed with
    | direct member =>
      rw [direct] at member
      exact List.mem_cons.mpr (.inl (List.mem_singleton.mp member))
    | through _ link ih =>
      obtain ⟨e, stored, member⟩ := link
      exact closed _ ih e stored _ member
  have agree := Imports.agreeFor_insert
    (fun needed => absurd (within "stray" needed) (by decide)) strayDocument
  exact ⟨agree, by decide +kernel,
    analysis_ignores_unneeded ringSource "main" .standard ringImports _ agree⟩

end MessageSchema
