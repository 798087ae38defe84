/-!
# What can be wrong with a schema

Every problem that the front end knows is one constructor, with what its
wording needs. A problem fixes its own identifier, message, severity, label and
help, so that two reports of one cause never differ in words.
-/

namespace MessageSchema

/-- How a finding is to be presented. Nothing stops an analysis, whatever the severity. -/
inductive Severity where
  | error
  | warning
deriving DecidableEq

/-- The name of a severity in reports and exchanged data. -/
def Severity.name : Severity → String
  | .error => "Error"
  | .warning => "Warning"

/-- The problems, in the order of the stages that find them: the bytes, the
tokens, the grammar, the structure of declarations, and their meaning. -/
inductive Problem where
  | invalidEncoding (offset : Nat)
  | unexpectedCharacter (character : Char)
  | malformedNumber (lexeme : String)
  | invalidEscape (escape : String)
  | unterminatedString
  | unterminatedComment
  | unexpectedToken (expected found : String)
  | missingName (what : String)
  | missingType (field : String)
  | missingVariantValue (variant : String)
  | invalidTag (lexeme : String)
  | invalidEnumValue (lexeme : String)
  | conflictingModifiers (field modifier : String)
  | emptyImportName
  | unresolvedType (name : String)
  | importCycle (name : String)
  | duplicateDeclaration (name : String)
  | duplicateFieldName (message field : String)
  | duplicateFieldTag (message : String) (tag : Nat) (first : String)
  | duplicateVariantName (enum variant : String)
  | duplicateEnumValue (enum : String) (value : Int) (first : String)
  | reservedIdentifier (name : String)
  | circularType (message field : String)
  | unknownImport (name : String)
  | unusedImport (name : String)
  | duplicateImport (name : String)
deriving DecidableEq

namespace Problem

/-- The stable identifier: the stage that finds the problem, then the problem. -/
def code : Problem → String
  | .invalidEncoding _ => "input::invalid_encoding"
  | .unexpectedCharacter _ => "lexer::unexpected_character"
  | .malformedNumber _ => "lexer::malformed_number"
  | .invalidEscape _ => "lexer::invalid_escape"
  | .unterminatedString => "lexer::unterminated_string"
  | .unterminatedComment => "lexer::unterminated_comment"
  | .unexpectedToken _ _ => "parser::unexpected_token"
  | .missingName _ => "parser::missing_name"
  | .missingType _ => "builder::missing_type"
  | .missingVariantValue _ => "builder::missing_variant_value"
  | .invalidTag _ => "builder::invalid_tag"
  | .invalidEnumValue _ => "builder::invalid_enum_value"
  | .conflictingModifiers _ _ => "builder::conflicting_modifiers"
  | .emptyImportName => "builder::empty_import_name"
  | .unresolvedType _ => "resolver::unresolved_type"
  | .importCycle _ => "resolver::import_cycle"
  | .duplicateDeclaration _ => "validator::duplicate_declaration"
  | .duplicateFieldName _ _ => "validator::duplicate_field_name"
  | .duplicateFieldTag _ _ _ => "validator::duplicate_field_tag"
  | .duplicateVariantName _ _ => "validator::duplicate_variant_name"
  | .duplicateEnumValue _ _ _ => "validator::duplicate_enum_value"
  | .reservedIdentifier _ => "validator::reserved_identifier"
  | .circularType _ _ => "validator::circular_type"
  | .unknownImport _ => "validator::unknown_import"
  | .unusedImport _ => "validator::unused_import"
  | .duplicateImport _ => "validator::duplicate_import"

/-- The sentence shown for a problem. -/
def message : Problem → String
  | .invalidEncoding offset =>
    s!"Source text is not valid UTF-8 (first invalid byte at offset {offset})"
  | .unexpectedCharacter character => s!"Unrecognized character '{character}'"
  | .malformedNumber lexeme => s!"Malformed number literal '{lexeme}'"
  | .invalidEscape escape => s!"Invalid escape sequence '{escape}' in string literal"
  | .unterminatedString => "Unterminated string literal"
  | .unterminatedComment => "Unterminated block comment"
  | .unexpectedToken expected found => s!"Expected {expected}, found {found}"
  | .missingName what => s!"Missing {what}"
  | .missingType field => s!"Field '{field}' is missing a type"
  | .missingVariantValue variant => s!"Enum variant '{variant}' is missing a value"
  | .invalidTag lexeme => s!"Invalid field tag '{lexeme}'"
  | .invalidEnumValue lexeme => s!"Invalid enum value '{lexeme}'"
  | .conflictingModifiers field modifier =>
    s!"Conflicting modifier '{modifier}' on field '{field}'"
  | .emptyImportName => "Import name is empty"
  | .unresolvedType name => s!"Unresolved type '{name}'"
  | .importCycle name => s!"Import '{name}' leads back to this document"
  | .duplicateDeclaration name => s!"Duplicate declaration '{name}'"
  | .duplicateFieldName message field => s!"Duplicate field '{field}' in message '{message}'"
  | .duplicateFieldTag message tag first =>
    s!"Field tag {tag} in message '{message}' is already used by field '{first}'"
  | .duplicateVariantName enum variant => s!"Duplicate variant '{variant}' in enum '{enum}'"
  | .duplicateEnumValue enum value first =>
    s!"Value {value} in enum '{enum}' is already used by variant '{first}'"
  | .reservedIdentifier name => s!"'{name}' is a reserved identifier"
  | .circularType message field => s!"Field '{field}' makes message '{message}' contain itself"
  | .unknownImport name => s!"Unknown import '{name}'"
  | .unusedImport name => s!"Import '{name}' is never used"
  | .duplicateImport name => s!"Document '{name}' is imported more than once"

/-- Only what leaves every declaration usable is a warning: a cycle, an unused
and a repeated import. -/
def severity : Problem → Severity
  | .importCycle _ | .unusedImport _ | .duplicateImport _ => .warning
  | _ => .error

/-- The words beside the mark under the source line. -/
def label : Problem → String
  | .unexpectedToken _ _ => "unexpected input starts here"
  | .missingName _ => "name expected here"
  | .unresolvedType _ => "referenced here"
  | .duplicateDeclaration _ | .duplicateFieldName _ _ | .duplicateVariantName _ _
  | .duplicateImport _ => "declared again here"
  | .duplicateFieldTag _ _ _ | .duplicateEnumValue _ _ _ => "reused here"
  | _ => "here"

/-- The advice shown below a report, where there is any. -/
def help? : Problem → Option String
  | .invalidEncoding _ => some "mspec sources must be UTF-8 encoded."
  | .unexpectedCharacter _ =>
    some "This character is not part of the mspec language and was ignored."
  | .malformedNumber _ =>
    some "Numbers are decimal or `0x` hexadecimal; `_` may only separate two digits."
  | .invalidEscape _ =>
    some "Supported escapes are \\\" \\\\ \\n \\r \\t \\0 \\' and \\u\x7bXXXX\x7d."
  | .unterminatedString => some "Add a closing '\"' before the end of the line."
  | .unterminatedComment => some "Block comments must be closed with '*/'."
  | .unexpectedToken _ _ =>
    some "The parser skipped input up to the next ';', '\x7d' or declaration keyword."
  | .missingName _ => some "Declarations need a name directly after their keyword."
  | .missingType field => some s!"Declare the type after a colon, e.g. `field {field}: Int;`."
  | .missingVariantValue variant =>
    some s!"Give the variant an explicit value, e.g. `{variant} = 0;`."
  | .invalidTag _ => some "Field tags are non-negative integers that fit in 32 bits."
  | .invalidEnumValue _ => some "Enum values are integers that fit in 64 bits."
  | .conflictingModifiers _ _ =>
    some "A field takes at most one of `required`, `optional` or `repeated`."
  | .emptyImportName => some "Name the document to import, e.g. `import common;`."
  | .unresolvedType name =>
    some s!"Declare '{name}' as a message or enum, or import the document that declares it."
  | .importCycle _ =>
    some "Import graphs should be acyclic; lookups through the cycle are ignored."
  | .duplicateDeclaration _ => some "Message and enum names share one namespace per document."
  | .duplicateFieldTag _ _ _ => some "Every field tag must be unique within its message."
  | .duplicateEnumValue _ _ _ => some "Every variant value must be unique within its enum."
  | .reservedIdentifier _ =>
    some "Pick another name; this one is a builtin type or reserved for future use."
  | .circularType _ _ =>
    some "Break the cycle by marking one field of the cycle `optional` or `repeated`."
  | .unknownImport _ => some "The host did not supply a document for this import."
  | .duplicateFieldName _ _ | .duplicateVariantName _ _ | .unusedImport _
  | .duplicateImport _ => none

/-- Whether a problem lies in the tokens of the text and not in their order. -/
def isLexical : Problem → Bool
  | .unexpectedCharacter _ | .malformedNumber _ | .invalidEscape _ | .unterminatedString
  | .unterminatedComment => true
  | _ => false

end Problem

end MessageSchema
