import MessageSchema.Token.Reading

/-!
# Token streams

Tokens follow one another without gaps, from a position in the text to its end,
and the end is itself a token. A cursor hands them out one by one: taken as a
sequence it is exhausted once the end token was handed out, while asking for the
next token at the end gives the end token again.
-/

namespace MessageSchema

/-- What was read, as a token at `p`. -/
def Reading.tokenAt (reading : Reading) (p : Position) : Token :=
  ⟨reading.kind, String.ofList reading.lexeme, Span.between p (p.advanceAll reading.lexeme),
    reading.fault⟩

/-- The tokens of a text that stands at `p`, layout included, ending in the token
for its end. -/
def tokensFrom (p : Position) : List Char → List Token
  | [] => [Token.endAt p]
  | c :: rest =>
    let reading := Reading.read c rest
    have := Reading.read_rest_length c rest
    reading.tokenAt p :: tokensFrom (p.advanceAll reading.lexeme) reading.rest
termination_by text => text.length

/-- Every token of a source, layout included. -/
def tokenizeWithTrivia (source : String) : List Token :=
  tokensFrom .origin source.toList

/-- The tokens of a source without blanks and comments. -/
def tokenize (source : String) : List Token :=
  (tokenizeWithTrivia source).filter fun t => !t.kind.isTrivia

/-- A place in a source from which tokens are taken. -/
structure Cursor where
  position : Position
  rest : List Char
  finished : Bool

namespace Cursor

/-- The cursor before the first token of a source. -/
def start (source : String) : Cursor :=
  ⟨.origin, source.toList, false⟩

/-- The token ahead and the cursor behind it. At the end this is the end token,
every time. -/
def nextToken (cursor : Cursor) : Token × Cursor :=
  match cursor.rest with
  | [] => (Token.endAt cursor.position, { cursor with finished := true })
  | c :: rest =>
    let reading := Reading.read c rest
    (reading.tokenAt cursor.position,
      { cursor with
        position := cursor.position.advanceAll reading.lexeme
        rest := reading.rest })

/-- The next token of the sequence, which stops behind the end token. -/
def next? (cursor : Cursor) : Option Token × Cursor :=
  if cursor.finished then (none, cursor)
  else
    let (token, after) := cursor.nextToken
    (some token, after)

/-- All the tokens ahead and the cursor behind the last. -/
def lex (cursor : Cursor) : List Token × Cursor :=
  (tokensFrom cursor.position cursor.rest,
    ⟨cursor.position.advanceAll cursor.rest, [], true⟩)

end Cursor

end MessageSchema
