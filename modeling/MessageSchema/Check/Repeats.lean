/-!
# Repetitions in a list

Several checks ask one question: which members of a list have a key that an
earlier member has already, and which member had it first. A member without a
key never counts.
-/

namespace MessageSchema

variable {α κ : Type} [DecidableEq κ]

/-- Each member whose key an earlier one has, with the first that has it, given
the members before the list. -/
def repeatsAfter (key? : α → Option κ) (before : List α) : List α → List (α × α)
  | [] => []
  | x :: rest =>
    let later := repeatsAfter key? (before ++ [x]) rest
    if (key? x).isNone then later
    else
      match before.find? (fun first => key? first = key? x) with
      | some first => (x, first) :: later
      | none => later

/-- Each member whose key an earlier one has, with the first that has it. -/
def repeats (key? : α → Option κ) (members : List α) : List (α × α) :=
  repeatsAfter key? [] members

/-- A name as a key. A missing name, which is empty, is none. -/
def nameKey? (name : String) : Option String :=
  if name = "" then none else some name

end MessageSchema
