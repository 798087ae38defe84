import MessageSchema.Check.Repeats
import MessageSchema.Diagnostic
import MessageSchema.Document.Basic

/-!
# Duplicates

Messages and enums share one namespace; imports, the fields of a message and the
variants of an enum each have their own. Tags and values are to be unique too.
Every repetition is found once, at the later place.
-/

namespace MessageSchema.Check

/-- Types declared again, and then documents imported again. -/
def duplicateDeclarations (d : Document) : List Diagnostic :=
  (repeats (nameKey? ·.name) (d.declarations.filter Declaration.isType)).map
      (fun (again, _) => ⟨.duplicateDeclaration again.name, again.nameSpan⟩)
    ++ (repeats (nameKey? ·.name) d.imports).map
      (fun (again, _) => ⟨.duplicateImport again.name, again.nameSpan⟩)

/-- Fields named like an earlier field of their message. -/
def duplicateFieldNames (d : Document) : List Diagnostic :=
  d.messages.flatMap fun m =>
    (repeats (nameKey? ·.name) m.fields).map fun (again, _) =>
      ⟨.duplicateFieldName m.name again.name, again.nameSpan⟩

/-- The finding for a field with the tag of an earlier one. -/
def tagReused (m : Message) (again first : Field) : Option Diagnostic :=
  again.tag.map fun tag => ⟨.duplicateFieldTag m.name tag.toNat first.name, again.span⟩

/-- Fields with the tag of an earlier field of their message. -/
def duplicateFieldTags (d : Document) : List Diagnostic :=
  d.messages.flatMap fun m =>
    (repeats (·.tag) m.fields).filterMap fun (again, first) => tagReused m again first

/-- Variants named like an earlier variant of their enum. -/
def duplicateVariantNames (d : Document) : List Diagnostic :=
  d.enums.flatMap fun e =>
    (repeats (nameKey? ·.name) e.variants).map fun (again, _) =>
      ⟨.duplicateVariantName e.name again.name, again.nameSpan⟩

/-- The value of a variant, if it has a place in the source. -/
def placedValue? (v : Variant) : Option Int64 :=
  if v.valueSpan.isSome then v.value else none

/-- The finding for a variant with the value of an earlier one. -/
def valueReused (e : Enum) (again first : Variant) : Option Diagnostic :=
  match again.value, again.valueSpan with
  | some value, some span => some ⟨.duplicateEnumValue e.name value.toInt first.name, span⟩
  | _, _ => none

/-- Variants with the value of an earlier variant of their enum. -/
def duplicateEnumValues (d : Document) : List Diagnostic :=
  d.enums.flatMap fun e =>
    (repeats placedValue? e.variants).filterMap fun (again, first) => valueReused e again first

end MessageSchema.Check
