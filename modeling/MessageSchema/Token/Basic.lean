import MessageSchema.Diagnostic

/-!
# Tokens

A token is a kind, the text it was read from, and where that text stands. A
token whose text is malformed is still a token of its kind; the fault rides
along until the grammar stage reports it.
-/

namespace MessageSchema

/-- The words that the language keeps for itself. -/
inductive Keyword where
  | message
  | enum
  | importing
  | field
  | required
  | optional
  | repeated
deriving DecidableEq

/-- The marks of one character. -/
inductive Punct where
  | leftBrace
  | rightBrace
  | leftBracket
  | rightBracket
  | leftParen
  | rightParen
  | colon
  | semicolon
  | comma
  | dot
  | equals
deriving DecidableEq

/-- The kinds of tokens. -/
inductive TokenKind where
  /-- The end of the text, the last token of every stream. -/
  | eof
  | whitespace
  | comment
  /-- A stray character, or a block comment without an end. -/
  | error
  | identifier
  | integer
  | float
  /-- A quoted text, with its quotes and escapes as written. -/
  | string
  | keyword (word : Keyword)
  | punct (mark : Punct)
deriving DecidableEq

/-- The classes of tokens that an editor colours alike. -/
inductive TokenCategory where
  | keyword
  | identifier
  | comment
  | string
  | number
  | operator
  | bracket
  | whitespace
  | unknown
deriving DecidableEq

namespace Keyword

/-- Every keyword, each once. -/
def all : List Keyword :=
  [.message, .enum, .importing, .field, .required, .optional, .repeated]

/-- The word as it is written. -/
def text : Keyword → String
  | .message => "message"
  | .enum => "enum"
  | .importing => "import"
  | .field => "field"
  | .required => "required"
  | .optional => "optional"
  | .repeated => "repeated"

/-- The name of the keyword's kind in exchanged data. -/
def name : Keyword → String
  | .message => "Message"
  | .enum => "Enum"
  | .importing => "Import"
  | .field => "Field"
  | .required => "Required"
  | .optional => "Optional"
  | .repeated => "Repeated"

/-- The keyword that is written as `text`. -/
def ofText? (text : String) : Option Keyword :=
  all.find? fun word => word.text == text

/-- Whether the word qualifies a field. -/
def isModifier : Keyword → Bool
  | .required | .optional | .repeated => true
  | _ => false

/-- Whether the word begins a declaration of the document and nothing else. -/
def startsDeclaration : Keyword → Bool
  | .message | .enum | .importing => true
  | _ => false

end Keyword

namespace Punct

/-- Every mark, each once. -/
def all : List Punct :=
  [.leftBrace, .rightBrace, .leftBracket, .rightBracket, .leftParen, .rightParen, .colon,
   .semicolon, .comma, .dot, .equals]

/-- The character of a mark. -/
def char : Punct → Char
  | .leftBrace => '\x7b'
  | .rightBrace => '\x7d'
  | .leftBracket => '['
  | .rightBracket => ']'
  | .leftParen => '('
  | .rightParen => ')'
  | .colon => ':'
  | .semicolon => ';'
  | .comma => ','
  | .dot => '.'
  | .equals => '='

/-- The name of the mark's kind in exchanged data. -/
def name : Punct → String
  | .leftBrace => "LBrace"
  | .rightBrace => "RBrace"
  | .leftBracket => "LBracket"
  | .rightBracket => "RBracket"
  | .leftParen => "LParen"
  | .rightParen => "RParen"
  | .colon => "Colon"
  | .semicolon => "Semicolon"
  | .comma => "Comma"
  | .dot => "Dot"
  | .equals => "Equals"

/-- The mark that a character is. -/
def ofChar? (c : Char) : Option Punct :=
  all.find? fun mark => mark.char == c

/-- Whether the mark is one of a pair. -/
def isBracket : Punct → Bool
  | .leftBrace | .rightBrace | .leftBracket | .rightBracket | .leftParen | .rightParen => true
  | _ => false

end Punct

/-- The name of a category in exchanged data. -/
def TokenCategory.name : TokenCategory → String
  | .keyword => "Keyword"
  | .identifier => "Identifier"
  | .comment => "Comment"
  | .string => "String"
  | .number => "Number"
  | .operator => "Operator"
  | .bracket => "Bracket"
  | .whitespace => "Whitespace"
  | .unknown => "Unknown"

namespace TokenKind

/-- Every kind of token, each once. -/
def all : List TokenKind :=
  [.eof, .whitespace, .comment, .error, .identifier, .integer, .float, .string]
    ++ Keyword.all.map .keyword ++ Punct.all.map .punct

/-- The name of a kind in exchanged data. -/
def name : TokenKind → String
  | .eof => "Eof"
  | .whitespace => "Whitespace"
  | .comment => "Comment"
  | .error => "Error"
  | .identifier => "Identifier"
  | .integer => "Integer"
  | .float => "Float"
  | .string => "String"
  | .keyword word => word.name
  | .punct mark => mark.name

/-- The kind with a given name. -/
def ofName? (name : String) : Option TokenKind :=
  all.find? fun kind => kind.name == name

/-- A kind in the words of a report. -/
def describe : TokenKind → String
  | .eof => "end of file"
  | .whitespace => "whitespace"
  | .comment => "comment"
  | .error => "invalid input"
  | .identifier => "identifier"
  | .integer => "integer"
  | .float => "number"
  | .string => "string"
  | .keyword word => "'" ++ word.text ++ "'"
  | .punct mark => "'" ++ mark.char.toString ++ "'"

/-- The class in which an editor shows a kind. -/
def category : TokenKind → TokenCategory
  | .eof | .error => .unknown
  | .whitespace => .whitespace
  | .comment => .comment
  | .identifier => .identifier
  | .integer | .float => .number
  | .string => .string
  | .keyword _ => .keyword
  | .punct mark => if mark.isBracket then .bracket else .operator

/-- Layout: tokens that the grammar does not see. -/
def isTrivia : TokenKind → Bool
  | .whitespace | .comment => true
  | _ => false

/-- Whether the kind is a keyword that qualifies a field. -/
def isModifier : TokenKind → Bool
  | .keyword word => word.isModifier
  | _ => false

/-- Whether the kind is a keyword that begins a declaration. -/
def startsDeclaration : TokenKind → Bool
  | .keyword word => word.startsDeclaration
  | _ => false

/-- Whether the kind is a number literal. -/
def isNumber : TokenKind → Bool
  | .integer | .float => true
  | _ => false

/-- Whether a token of this kind takes part in the grammar. -/
def isSignificant (kind : TokenKind) : Bool :=
  !kind.isTrivia && kind != .error

end TokenKind

/-- A piece of the source with its kind. -/
structure Token where
  kind : TokenKind
  lexeme : String
  span : Span
  fault : Option Problem
deriving DecidableEq

namespace Token

/-- The token at the end of a text. -/
def endAt (p : Position) : Token :=
  ⟨.eof, "", Span.between p p, none⟩

/-- The zero-width span behind a token, taken to stand on one line. -/
def pointAfter (t : Token) : Span :=
  ⟨t.span.stop, t.span.stop, t.span.line, t.span.column + t.lexeme.length⟩

/-- A token in the words of a report: its text, or what it is when it has none. -/
def describe (t : Token) : String :=
  if t.kind = .eof then t.kind.describe else "'" ++ t.lexeme ++ "'"

/-- The fault that a token carries, as a finding at the token. -/
def finding? (t : Token) : Option Diagnostic :=
  t.fault.map fun problem => ⟨problem, t.span⟩

end Token

end MessageSchema
