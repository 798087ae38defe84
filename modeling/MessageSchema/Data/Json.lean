import MessageSchema.Data.Basic

/-!
# Data as JSON text

The layout is the indented one: two blanks a level, one item or field a line,
a blank behind each colon, and nothing between the brackets of an empty list or
record. A tagged value is a record with the tag as its only field.
-/

namespace MessageSchema.Data.Json

/-- The last hexadecimal digits of a number, in lower case. -/
def hexadecimal (width n : Nat) : List Char :=
  (List.range width).reverse.map fun place => (n / Nat.pow 16 place % 16).digitChar

/-- A character inside a quoted text. Only the quote, the backslash and what lies
below the blank is escaped. -/
def quotedChar (c : Char) : List Char :=
  match c with
  | '"' => ['\\', '"']
  | '\\' => ['\\', '\\']
  | '\x08' => ['\\', 'b']
  | '\x0c' => ['\\', 'f']
  | '\n' => ['\\', 'n']
  | '\r' => ['\\', 'r']
  | '\t' => ['\\', 't']
  | _ => if c.toNat < 0x20 then '\\' :: 'u' :: hexadecimal 4 c.toNat else [c]

/-- A text between quotes. -/
def quoted (s : String) : String :=
  String.ofList ('"' :: s.toList.flatMap quotedChar ++ ['"'])

/-- The beginning of a line at a depth. -/
def newline (depth : Nat) : String :=
  String.ofList ('\n' :: List.replicate (2 * depth) ' ')

mutual

/-- A value whose first line is already indented to `depth`. -/
def render (depth : Nat) : Data → String
  | .null => "null"
  | .bool true => "true"
  | .bool false => "false"
  | .int value => toString value
  | .text value => quoted value
  | .list [] => "[]"
  | .list (first :: rest) =>
    "[" ++ newline (depth + 1) ++ render (depth + 1) first ++ renderItems depth rest
      ++ newline depth ++ "]"
  | .record [] => "\x7b\x7d"
  | .record ((key, first) :: rest) =>
    "\x7b" ++ newline (depth + 1) ++ quoted key ++ ": " ++ render (depth + 1) first
      ++ renderFields depth rest ++ newline depth ++ "\x7d"
  | .tagged tag content =>
    "\x7b" ++ newline (depth + 1) ++ quoted tag ++ ": " ++ render (depth + 1) content
      ++ newline depth ++ "\x7d"

/-- The items of a list behind the first, each on a line of its own. -/
def renderItems (depth : Nat) : List Data → String
  | [] => ""
  | item :: rest =>
    "," ++ newline (depth + 1) ++ render (depth + 1) item ++ renderItems depth rest

/-- The fields of a record behind the first, each on a line of its own. -/
def renderFields (depth : Nat) : List (String × Data) → String
  | [] => ""
  | (key, value) :: rest =>
    "," ++ newline (depth + 1) ++ quoted key ++ ": " ++ render (depth + 1) value
      ++ renderFields depth rest

end

end Json

/-- Data as indented JSON text. -/
def toJson (data : Data) : String :=
  Json.render 0 data

end MessageSchema.Data
