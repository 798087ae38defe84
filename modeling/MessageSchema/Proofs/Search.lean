import Mathlib.Data.List.Basic
import MessageSchema.Imports
import MessageSchema.Proofs.Walks

/-!
# Searches through imports

A type that a document does not declare itself is looked for in what it imports,
in what those documents import, and so on. The rules of such a search are given
here as a relation: each key is taken up once, a document that declares the name
ends the search, and one that does not is followed by everything it imports
before the next key. The relation carries along the keys taken up so far, for a
key that was taken up in one branch is passed over in all later ones.

Supplied documents may import each other in a circle, so the rules are followed
by a walk that keeps one list of pending keys. The walk finds what the rules
find, and neither loses anything by passing over keys: a search fails exactly if
no document that can be reached declares the name.
-/

namespace MessageSchema

/-! ## What a document declares -/

/-- The first message or enum of a name in a document. -/
structure Document.Declares (d : Document) (name : String) (id : DeclId) : Prop where
  owner : id.document = d.name
  place : ∃ declaration, d.declarations[id.index]? = some declaration
    ∧ declaration.kind? = some id.kind ∧ declaration.name = name
  first : ∀ i < id.index, ∀ earlier, d.declarations[i]? = some earlier →
    earlier.isType = true → earlier.name ≠ name

namespace Document

variable {d : Document} {name : String} {id : DeclId}

/-- The first type of a name, found by its place among the declarations. -/
theorem findType?_eq (d : Document) (name : String) :
    d.findType? name
      = (d.declarations.zipIdx.find? fun entry => entry.1.isType && entry.1.name = name).bind
          fun entry => entry.1.kind?.map fun kind => ⟨d.name, entry.2, kind⟩ := by
  rw [findType?, types, List.find?_filterMap, Option.map_bind]
  have same : (fun entry : Declaration × Nat =>
      (entry.1.kind?.map fun kind => (entry.1, (⟨d.name, entry.2, kind⟩ : DeclId))).any
        (·.1.name = name))
      = fun entry => entry.1.isType && entry.1.name = name := by
    funext entry
    rw [Declaration.isType]
    cases entry.1.kind? <;> simp
  rw [same]
  congr 1
  funext entry
  rw [Function.comp_apply, Option.map_map]
  rfl

/-- The type that is found by its name is the first one that is declared with it. The index that
the search gives is the place among the declarations, for it goes through them in order. -/
theorem findType?_eq_some_iff : d.findType? name = some id ↔ d.Declares name id := by
  rw [findType?_eq, Option.bind_eq_some_iff]
  constructor
  · rintro ⟨⟨declaration, index⟩, found, denoted⟩
    obtain ⟨kind, type, rfl⟩ := Option.map_eq_some_iff.mp denoted
    obtain ⟨fits, i, bound, here, before⟩ := List.find?_eq_some_iff_getElem.mp found
    rw [List.getElem_zipIdx, Nat.zero_add] at here
    obtain ⟨rfl, rfl⟩ := Prod.mk.inj here
    rw [List.length_zipIdx] at bound
    simp only [Bool.and_eq_true, decide_eq_true_eq] at fits
    refine ⟨rfl, ⟨_, List.getElem?_eq_getElem bound, type, fits.2⟩, ?_⟩
    intro j less earlier there isType same
    obtain ⟨inside, rfl⟩ := List.getElem?_eq_some_iff.mp there
    have other := before j less
    rw [List.getElem_zipIdx] at other
    simp [isType, same] at other
  · rintro ⟨owner, ⟨declaration, there, type, named⟩, first⟩
    obtain ⟨bound, here⟩ := List.getElem?_eq_some_iff.mp there
    refine ⟨(declaration, id.index), List.find?_eq_some_iff_getElem.mpr ?_, ?_⟩
    · refine ⟨by simp [Declaration.isType, type, named], id.index, by simpa using bound, ?_, ?_⟩
      · rw [List.getElem_zipIdx, Nat.zero_add, here]
      · intro j less
        have inside : j < d.declarations.length := Nat.lt_trans less bound
        have other := first j less _ (List.getElem?_eq_getElem inside)
        rw [List.getElem_zipIdx]
        cases isType : d.declarations[j].isType <;> simp_all
    · rw [type, Option.map_some, ← owner]

/-- None is found exactly if none of the name is declared. -/
theorem findType?_eq_none_iff : d.findType? name = none ↔ ∀ id, ¬ d.Declares name id := by
  simp only [← findType?_eq_some_iff, Option.eq_none_iff_forall_ne_some, ne_eq]

end Document

/-! ## The rules of a search -/

namespace Imports

/-- A key under which a document is supplied that is not named `home`. -/
structure Opens (imports : Imports) (home key : String) (d : Document) : Prop where
  stored : imports.get? key = some d
  other : d.name ≠ home

/-- A search for a name on behalf of the document `home`: from the keys already
taken up and those to be searched, in order, to the answer and the keys taken up
in the end. -/
inductive Search (imports : Imports) (home name : String) :
    List String → List String → Option DeclId → List String → Prop
  | done {visited : List String} : Search imports home name visited [] none visited
  | seen {visited rest after : List String} {key : String} {answer : Option DeclId}
      (member : key ∈ visited) (later : Search imports home name visited rest answer after) :
      Search imports home name visited (key :: rest) answer after
  | closed {visited rest after : List String} {key : String} {answer : Option DeclId}
      (new : key ∉ visited) (nothing : ∀ d, ¬ imports.Opens home key d)
      (later : Search imports home name (key :: visited) rest answer after) :
      Search imports home name visited (key :: rest) answer after
  | found {visited rest : List String} {key : String} {d : Document} {id : DeclId}
      (new : key ∉ visited) (opens : imports.Opens home key d) (declares : d.Declares name id) :
      Search imports home name visited (key :: rest) (some id) (key :: visited)
  | deeper {visited rest after : List String} {key : String} {d : Document} {id : DeclId}
      (new : key ∉ visited) (opens : imports.Opens home key d)
      (silent : ∀ id, ¬ d.Declares name id)
      (inside : Search imports home name (key :: visited) d.importNames (some id) after) :
      Search imports home name visited (key :: rest) (some id) after
  | past {visited rest between after : List String} {key : String} {d : Document}
      {answer : Option DeclId} (new : key ∉ visited) (opens : imports.Opens home key d)
      (silent : ∀ id, ¬ d.Declares name id)
      (inside : Search imports home name (key :: visited) d.importNames none between)
      (later : Search imports home name between rest answer after) :
      Search imports home name visited (key :: rest) answer after

/-- What the document `home` finds through the import `key`. -/
def Finds (imports : Imports) (home name key : String) (answer : Option DeclId) : Prop :=
  ∃ after, imports.Search home name [home] [key] answer after

/-- The documents that can be reached from keys by following imports, without
entering the key `home` or a document of that name. -/
inductive Reached (imports : Imports) (home : String) (keys : List String) : Document → Prop
  | direct {key : String} {d : Document} (member : key ∈ keys) (foreign : key ≠ home)
      (opens : imports.Opens home key d) : Reached imports home keys d
  | through {key : String} {d e : Document} (reached : Reached imports home keys d)
      (member : key ∈ d.importNames) (foreign : key ≠ home) (opens : imports.Opens home key e) :
      Reached imports home keys e

/-! ## The graph of a search -/

variable {imports : Imports} {home name key : String}

/-- The entries are the documents with the keys under which they are supplied. -/
theorem mem_entries_iff {d : Document} : (key, d) ∈ imports.entries ↔ imports.get? key = some d :=
  Std.ExtTreeMap.mem_toList_iff_getElem?_eq_some

/-- No key has two entries. -/
theorem entries_nodup (imports : Imports) : (imports.entries.map Prod.fst).Nodup := by
  rw [entries, Std.ExtTreeMap.map_fst_toList_eq_keys]
  exact Std.ExtTreeMap.nodup_keys

/-- The successors of a key, in a graph that says of every document where it leads. -/
theorem successors_entries (leads : Document → List String) :
    (Graph.mk (imports.entries.map fun (key, d) => (key, leads d))).successors key
      = ((imports.get? key).map leads).getD [] := by
  have keys : (imports.entries.map fun (key, d) => (key, leads d)).map Prod.fst
      = imports.entries.map Prod.fst := by
    rw [List.map_map]
    rfl
  cases stored : imports.get? key with
  | none =>
    apply Graph.successors_of_not_mem
    rw [keys]
    rintro member
    obtain ⟨⟨other, d⟩, among, rfl⟩ := List.mem_map.mp member
    exact nomatch stored.symm.trans (mem_entries_iff.mp among)
  | some d =>
    apply Graph.successors_of_mem
    · rw [keys]
      exact imports.entries_nodup
    · exact List.mem_map.mpr ⟨(key, d), mem_entries_iff.mpr stored, rfl⟩

/-- In the graph of imports a key is followed by what its document imports, and by nothing if
there is no document under it. -/
theorem successors_graph (imports : Imports) (key : String) :
    imports.graph.successors key = ((imports.get? key).map Document.importNames).getD [] :=
  successors_entries Document.importNames

/-- Outside a document, the keys of documents of its name are followed by nothing. -/
theorem successors_graphOutside (imports : Imports) (home key : String) :
    (imports.graphOutside home).successors key
      = ((imports.get? key).map fun d => if d.name = home then [] else d.importNames).getD [] :=
  successors_entries fun d => if d.name = home then [] else d.importNames

/-- A key that opens a document is followed by what this document imports. -/
theorem Opens.successors {d : Document} (opens : imports.Opens home key d) :
    (imports.graphOutside home).successors key = d.importNames := by
  rw [successors_graphOutside, opens.stored, Option.map_some, if_neg opens.other, Option.getD_some]

/-- A key that opens a document finds the types of this document. -/
theorem Opens.findTypeOutside? {d : Document} (opens : imports.Opens home key d) (name : String) :
    imports.findTypeOutside? home key name = d.findType? name := by
  rw [Imports.findTypeOutside?, opens.stored, Option.bind_some, if_neg opens.other]

/-- A key that opens none is followed by nothing: nothing is supplied under it, or a document of
the name that is left out. -/
theorem successors_of_closed (nothing : ∀ d, ¬ imports.Opens home key d) :
    (imports.graphOutside home).successors key = [] := by
  rw [successors_graphOutside]
  cases stored : imports.get? key with
  | none => rfl
  | some d =>
    have same : d.name = home := Decidable.byContradiction fun other => nothing d ⟨stored, other⟩
    rw [Option.map_some, if_pos same, Option.getD_some]

/-- A key that opens no document finds nothing. -/
theorem findTypeOutside?_of_closed (nothing : ∀ d, ¬ imports.Opens home key d) (name : String) :
    imports.findTypeOutside? home key name = none := by
  rw [findTypeOutside?, Option.bind_eq_none_iff]
  intro d stored
  have same : d.name = home := Decidable.byContradiction fun other => nothing d ⟨stored, other⟩
  exact if_pos same

/-- A key that leads on opens a document. -/
theorem exists_opens_of_successor {next : String}
    (follows : next ∈ (imports.graphOutside home).successors key) :
    ∃ d, imports.Opens home key d := by
  by_contra nothing
  rw [successors_of_closed (not_exists.mp nothing)] at follows
  exact List.not_mem_nil follows

/-- A key finds an identity exactly if it opens a document that declares the name. -/
theorem findTypeOutside?_eq_some_iff {id : DeclId} :
    imports.findTypeOutside? home key name = some id
      ↔ ∃ d, imports.Opens home key d ∧ d.Declares name id := by
  constructor
  · intro found
    by_cases nothing : ∃ d, imports.Opens home key d
    · obtain ⟨d, opens⟩ := nothing
      rw [opens.findTypeOutside?] at found
      exact ⟨d, opens, Document.findType?_eq_some_iff.mp found⟩
    · exact nomatch (findTypeOutside?_of_closed (not_exists.mp nothing) name).symm.trans found
  · rintro ⟨d, opens, declares⟩
    rw [opens.findTypeOutside?]
    exact Document.findType?_eq_some_iff.mpr declares

/-! ## The walk follows the rules -/

namespace Search

variable {visited after : List String} {answer : Option DeclId}

/-- A search of two lists of keys ends in the first, or it goes on in the second
with what the first has taken up.

Proof: along the search, the keys of the first list are taken up one by one. It ends in the
middle of them, or comes to the second list with what was taken up by then. -/
theorem of_append {first second : List String}
    (search : imports.Search home name visited (first ++ second) answer after) :
    (∃ id, answer = some id ∧ imports.Search home name visited first (some id) after)
      ∨ ∃ between, imports.Search home name visited first none between
        ∧ imports.Search home name between second answer after := by
  generalize whole : first ++ second = keys at search
  -- the induction is on the search; what is left of `first` shrinks along with it
  induction search generalizing first with
  | done =>
    obtain ⟨rfl, rfl⟩ := List.append_eq_nil_iff.mp whole
    exact .inr ⟨_, .done, .done⟩
  | seen member later ih =>
    rcases List.append_eq_cons_iff.mp whole with ⟨rfl, rfl⟩ | ⟨others, rfl, rfl⟩
    · exact .inr ⟨_, .done, .seen member later⟩
    · rcases ih rfl with ⟨id, given, ends⟩ | ⟨between, fails, later⟩
      · exact .inl ⟨id, given, .seen member ends⟩
      · exact .inr ⟨between, .seen member fails, later⟩
  | closed new nothing later ih =>
    rcases List.append_eq_cons_iff.mp whole with ⟨rfl, rfl⟩ | ⟨others, rfl, rfl⟩
    · exact .inr ⟨_, .done, .closed new nothing later⟩
    · rcases ih rfl with ⟨id, given, ends⟩ | ⟨between, fails, later⟩
      · exact .inl ⟨id, given, .closed new nothing ends⟩
      · exact .inr ⟨between, .closed new nothing fails, later⟩
  | found new opens declares =>
    rcases List.append_eq_cons_iff.mp whole with ⟨rfl, rfl⟩ | ⟨others, rfl, rfl⟩
    · exact .inr ⟨_, .done, .found new opens declares⟩
    · exact .inl ⟨_, rfl, .found new opens declares⟩
  | deeper new opens silent inside =>
    rcases List.append_eq_cons_iff.mp whole with ⟨rfl, rfl⟩ | ⟨others, rfl, rfl⟩
    · exact .inr ⟨_, .done, .deeper new opens silent inside⟩
    · exact .inl ⟨_, rfl, .deeper new opens silent inside⟩
  | past new opens silent inside later _ ih =>
    rcases List.append_eq_cons_iff.mp whole with ⟨rfl, rfl⟩ | ⟨others, rfl, rfl⟩
    · exact .inr ⟨_, .done, .past new opens silent inside later⟩
    · rcases ih rfl with ⟨id, given, ends⟩ | ⟨between, fails, later⟩
      · exact .inl ⟨id, given, .past new opens silent inside ends⟩
      · exact .inr ⟨between, .past new opens silent inside fails, later⟩

/-- The walk makes a search. It puts the imports of a document in front of the
pending keys, and `of_append` tells them apart again. -/
theorem of_walk (imports : Imports) (home name : String) (visited keys : List String) :
    ∃ after, imports.Search home name visited keys
      (((imports.graphOutside home).walkFrom visited keys).findSome? fun key =>
        imports.findTypeOutside? home key name) after := by
  fun_induction Graph.walkFrom (imports.graphOutside home) visited keys with
  | case1 visited => exact ⟨visited, .done⟩
  | case2 visited key rest seen ih =>
    obtain ⟨after, search⟩ := ih
    exact ⟨after, .seen seen search⟩
  | case3 visited key rest new _ ih =>
    obtain ⟨after, search⟩ := ih
    rw [List.findSome?_cons]
    by_cases opened : ∃ d, imports.Opens home key d
    · obtain ⟨d, opens⟩ := opened
      rw [opens.findTypeOutside?]
      cases found : d.findType? name with
      | some id => exact ⟨_, .found new opens (Document.findType?_eq_some_iff.mp found)⟩
      | none =>
        have silent := Document.findType?_eq_none_iff.mp found
        rw [opens.successors] at search
        rcases search.of_append with ⟨id, given, ends⟩ | ⟨between, fails, later⟩
        · exact ⟨after, opens.successors ▸ given ▸ .deeper new opens silent ends⟩
        · exact ⟨after, opens.successors ▸ .past new opens silent fails later⟩
    · have nothing := not_exists.mp opened
      rw [findTypeOutside?_of_closed nothing]
      rw [successors_of_closed nothing] at search ⊢
      exact ⟨after, .closed new nothing search⟩

/-- A search has the answer of the walk, and one that fails takes up what the
walk visits.

Proof: by induction on the search. Keys that were seen are passed over by both; a document
without the name is followed by its imports, which the walk puts before the keys that are left.
-/
theorem walk_eq {keys : List String}
    (search : imports.Search home name visited keys answer after) :
    (((imports.graphOutside home).walkFrom visited keys).findSome? fun key =>
        imports.findTypeOutside? home key name) = answer
      ∧ (answer = none →
        after = ((imports.graphOutside home).walkFrom visited keys).reverse ++ visited) := by
  induction search with
  | done =>
    rw [Graph.walkFrom]
    exact ⟨rfl, fun _ => rfl⟩
  | seen member later ih =>
    rw [Graph.walkFrom, dif_pos member]
    exact ih
  | closed new nothing later ih =>
    rw [Graph.walkFrom, dif_neg new, List.findSome?_cons, findTypeOutside?_of_closed nothing,
      successors_of_closed nothing, List.nil_append]
    refine ⟨ih.1, fun fails => ?_⟩
    rw [ih.2 fails]
    simp
  | found new opens declares =>
    rw [Graph.walkFrom, dif_neg new, List.findSome?_cons, opens.findTypeOutside?,
      Document.findType?_eq_some_iff.mpr declares]
    exact ⟨rfl, fun fails => absurd fails (Option.some_ne_none _)⟩
  | deeper new opens silent inside ih =>
    rw [Graph.walkFrom, dif_neg new, List.findSome?_cons, opens.findTypeOutside?,
      Document.findType?_eq_none_iff.mpr silent, opens.successors, Graph.walkFrom_append,
      List.findSome?_append, ih.1]
    exact ⟨rfl, fun fails => absurd fails (Option.some_ne_none _)⟩
  | past new opens silent inside later below behind =>
    rw [Graph.walkFrom, dif_neg new, List.findSome?_cons, opens.findTypeOutside?,
      Document.findType?_eq_none_iff.mpr silent, opens.successors, Graph.walkFrom_append,
      List.findSome?_append, below.1, ← below.2 rfl]
    refine ⟨behind.1, fun fails => ?_⟩
    rw [behind.2 fails, below.2 rfl]
    simp

end Search

/-- The search through an import has exactly one answer. -/
theorem finds_iff {answer : Option DeclId} :
    imports.Finds home name key answer ↔ imports.findThrough? home key name = answer := by
  constructor
  · rintro ⟨after, search⟩
    exact search.walk_eq.1
  · rintro rfl
    exact Search.of_walk imports home name [home] [key]

/-! ## What a search can reach -/

/-- The documents that are reached are those under the keys that a path leads to. -/
theorem reached_iff {keys : List String} {d : Document} :
    imports.Reached home keys d
      ↔ ∃ start ∈ keys, ∃ key, (imports.graphOutside home).Reaches [home] start key
        ∧ imports.Opens home key d := by
  constructor
  · intro reached
    induction reached with
    | @direct key d member foreign opens =>
      exact ⟨key, member, key, ⟨by simpa using foreign, .refl⟩, opens⟩
    | @through key d e _ member foreign opens ih =>
      obtain ⟨start, given, last, path, opened⟩ := ih
      have edge : (imports.graphOutside home).Leads [home] last key :=
        ⟨opened.successors ▸ member, by simpa using foreign⟩
      exact ⟨start, given, key, ⟨path.1, path.2.tail edge⟩, opens⟩
  · rintro ⟨start, given, key, ⟨foreign, path⟩, opens⟩
    induction path generalizing d with
    | refl => exact .direct given (by simpa using foreign) opens
    | tail _ edge ih =>
      obtain ⟨e, opened⟩ := exists_opens_of_successor edge.1
      exact .through (ih opened) (opened.successors ▸ edge.1) (by simpa using edge.2) opens

/-- What is reached from several keys is reached from one of them: a way begins at one key. -/
theorem reached_iff_exists {keys : List String} {d : Document} :
    imports.Reached home keys d ↔ ∃ key ∈ keys, imports.Reached home [key] d := by
  simp only [reached_iff, List.mem_singleton, exists_eq_left]

/-- A search fails exactly if nothing that can be reached declares the name. -/
theorem findThrough?_eq_none_iff :
    imports.findThrough? home key name = none
      ↔ ∀ d, imports.Reached home [key] d → ∀ id, ¬ d.Declares name id := by
  rw [findThrough?, List.findSome?_eq_none_iff]
  constructor
  · intro fails d reached id declares
    obtain ⟨start, given, last, path, opens⟩ := reached_iff.mp reached
    cases List.mem_singleton.mp given
    have none_there := fails last ((Graph.mem_reachedFrom_iff _ _ _ _).mpr path)
    exact nomatch none_there.symm.trans (findTypeOutside?_eq_some_iff.mpr ⟨d, opens, declares⟩)
  · intro silent last member
    have path := (Graph.mem_reachedFrom_iff _ _ _ _).mp member
    apply Option.eq_none_iff_forall_ne_some.mpr
    intro id found
    obtain ⟨d, opens, declares⟩ := findTypeOutside?_eq_some_iff.mp found
    have reached := reached_iff.mpr ⟨key, List.mem_singleton_self key, last, path, opens⟩
    exact silent d reached id declares

/-- What a search finds is declared outside the document `home`. -/
theorem exists_opens_of_findThrough? {id : DeclId}
    (found : imports.findThrough? home key name = some id) :
    ∃ last d, imports.Opens home last d ∧ d.Declares name id := by
  obtain ⟨last, -, there⟩ := List.exists_of_findSome?_eq_some found
  exact ⟨last, findTypeOutside?_eq_some_iff.mp there⟩

end Imports

end MessageSchema
