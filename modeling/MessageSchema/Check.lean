import MessageSchema.Check.Circular
import MessageSchema.Check.Duplicates
import MessageSchema.Check.Names

/-!
# Checks of a resolved document

Every check is a function of the document and the configuration alone. The
checks do not see each other's findings, so their order shows only in the order
of findings at one place.
-/

namespace MessageSchema

/-- A named check. -/
structure Check where
  name : String
  run : Config → Document → List Diagnostic

namespace Check

/-- The checks in the order in which they are made. -/
def all : List Check :=
  [⟨"duplicate_declarations", fun _ => duplicateDeclarations⟩,
   ⟨"duplicate_field_names", fun _ => duplicateFieldNames⟩,
   ⟨"duplicate_field_tags", fun _ => duplicateFieldTags⟩,
   ⟨"duplicate_variant_names", fun _ => duplicateVariantNames⟩,
   ⟨"duplicate_enum_values", fun _ => duplicateEnumValues⟩,
   ⟨"reserved_identifiers", reservedIdentifiers⟩,
   ⟨"circular_types", fun _ => circularTypes⟩,
   ⟨"imports", fun _ => imports⟩]

/-- The findings of a list of checks, in the order in which they are made. -/
def findingsOf (checks : List Check) (config : Config) (d : Document) : List Diagnostic :=
  checks.flatMap fun check => check.run config d

end Check

/-- The findings of all checks, in the order in which they are made. -/
def validationFindings (config : Config) (d : Document) : List Diagnostic :=
  Check.findingsOf Check.all config d

/-- The findings of all checks, in the order of their places. -/
def validate (config : Config) (d : Document) : List Diagnostic :=
  Diagnostic.sorted (validationFindings config d)

end MessageSchema
