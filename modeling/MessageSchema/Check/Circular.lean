import MessageSchema.Diagnostic
import MessageSchema.Document.Basic
import MessageSchema.Graph

/-!
# Messages that contain themselves

A field without modifier, or a required one, holds its value outright. If its
type is a message of the same document, a value of the one message contains a
value of the other. Where these containments form a cycle no finite value
exists, and each field on a cycle is found.
-/

namespace MessageSchema.Check

/-- The index of the message that a field holds outright. -/
def heldMessage? (d : Document) (f : Field) : Option Nat :=
  if f.modifier.any Modifier.isIndirect then none
  else
    f.typeRef.bind fun t =>
      match t.resolution with
      | .declaration id =>
        if id.kind = .message && id.document = d.name then some id.index else none
      | .builtin | .unresolved => none

/-- The messages of a document with their indices. -/
def indexedMessages (d : Document) : List (Nat × Message) :=
  d.declarations.zipIdx.filterMap fun (declaration, index) =>
    declaration.message?.map fun m => (index, m)

/-- Which messages hold which, by their indices. -/
def containment (d : Document) : Graph Nat :=
  ⟨(indexedMessages d).map fun (index, m) => (index, m.fields.filterMap (heldMessage? d))⟩

/-- The finding for a field on a cycle, at its type. -/
def circularFinding (m : Message) (f : Field) : Diagnostic :=
  ⟨.circularType m.name f.name, (f.typeRef.map (·.span)).getD f.span⟩

/-- Fields of the message at `index` that lie on a cycle. -/
def circularFields (d : Document) (index : Nat) (m : Message) : List Field :=
  m.fields.filter fun f =>
    (heldMessage? d f).any fun held => index ∈ (containment d).reachedFrom [] held

/-- Fields through which a message contains itself. -/
def circularTypes (d : Document) : List Diagnostic :=
  (indexedMessages d).flatMap fun (index, m) =>
    (circularFields d index m).map (circularFinding m)

end MessageSchema.Check
