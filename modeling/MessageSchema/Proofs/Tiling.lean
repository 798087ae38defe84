import Mathlib.Algebra.Ring.Nat
import MessageSchema.Proofs.Places

/-!
# The tokens of a cursor tile its source

A cursor can be asked for tokens in three ways, in any order and as often as one
likes. Whatever is asked, the tokens handed out lie end to end: each begins where
the lexemes handed out before it end, in bytes as well as in lines and columns,
and together they are the text that was consumed. The end token is handed out only
when nothing is left, and from then on only it.

Every request is answered by steps that hand out one token, or by none. So it is
shown what a single step keeps, and the rest follows along the requests.
-/

namespace MessageSchema

namespace Cursor

/-- What a cursor can be asked for. -/
inductive Request where
  /-- The next token of the sequence, which stops behind the end token. -/
  | next
  /-- The token ahead, the end token again at the end. -/
  | nextToken
  /-- All tokens ahead. -/
  | lex
deriving DecidableEq

/-- The tokens that answer a request, and the cursor behind them. -/
def answer (cursor : Cursor) : Request → List Token × Cursor
  | .next => (cursor.next?.1.toList, cursor.next?.2)
  | .nextToken => ([cursor.nextToken.1], cursor.nextToken.2)
  | .lex => cursor.lex

/-- The tokens that answer requests one after the other, and the cursor behind
them. -/
def answers (cursor : Cursor) : List Request → List Token × Cursor
  | [] => ([], cursor)
  | request :: more =>
    let (tokens, after) := cursor.answer request
    let (later, last) := after.answers more
    (tokens ++ later, last)

/-- What is answered when the end token was handed out already. -/
def Request.atEnd (last : Token) : Request → List Token
  | .next => []
  | .nextToken | .lex => [last]

end Cursor

/-- A token that follows the tokens `before` in the text of a source. -/
structure Token.Tiles (source : String) (before : List Token) (t : Token) : Prop where
  start : t.span.start = (before.map (·.lexeme.utf8ByteSize)).sum
  stop : t.span.stop = t.span.start + t.lexeme.utf8ByteSize
  slice : source.toByteArray.extract t.span.start t.span.stop = t.lexeme.toByteArray
  line : t.span.line = lineBehind (textBefore t.span.start source.toList)
  column : t.span.column = columnBehind (textBefore t.span.start source.toList)
  written : t.kind ≠ .eof → t.lexeme ≠ ""
  /-- The end token comes when the whole source is consumed, and has no width. -/
  last : t.kind = .eof → String.join (before.map (·.lexeme)) = source
    ∧ t.span.start = source.utf8ByteSize ∧ t.span.stop = source.utf8ByteSize

namespace Cursor

/-- What can be relied on when a cursor has handed out some tokens of a source. -/
structure Tiled (source : String) (given : List Token) (cursor : Cursor) : Prop where
  /-- The lexemes handed out are the text in front of the rest. -/
  consumed : String.join ((given.filter (·.kind ≠ .eof)).map (·.lexeme)) ++ String.ofList cursor.rest
    = source
  tokens : ∀ before t later, given = before ++ t :: later → t.Tiles source before
  /-- Before the end token the sequence does not stop. -/
  going : (∀ t ∈ given, t.kind ≠ .eof) → cursor.next? = (some cursor.nextToken.1, cursor.nextToken.2)
  ended : ∀ last ∈ given, last.kind = .eof → ∀ request, (cursor.answer request).1 = request.atEnd last
  /-- Asked for all tokens, a cursor ends with the one end token. -/
  whole : ∃ shown last, cursor.lex.1 = shown ++ [last] ∧ last.kind = .eof
    ∧ ∀ t ∈ shown, t.kind ≠ .eof

end Cursor

/-! ## What a token says of the source it stands in -/

namespace Token

/-- The text of tokens, one behind the other. -/
def textOf (tokens : List Token) : List Char :=
  tokens.flatMap (·.lexeme.toList)

/-- One more token adds its lexeme to the text. -/
theorem textOf_concat (tokens : List Token) (t : Token) :
    textOf (tokens ++ [t]) = textOf tokens ++ t.lexeme.toList := by
  simp [textOf]

/-- The text of tokens is that of their lexemes joined together. -/
theorem ofList_textOf (tokens : List Token) :
    String.ofList (textOf tokens) = String.join (tokens.map (·.lexeme)) := by
  rw [← String.toList_inj, String.toList_ofList, String.toList_join, List.flatMap_map]
  rfl

/-- Tokens without text do not count. -/
theorem textOf_filter {tokens : List Token} {p : Token → Bool}
    (blank : ∀ t ∈ tokens, p t = false → t.lexeme = "") :
    textOf (tokens.filter p) = textOf tokens := by
  induction tokens with
  | nil => rfl
  | cons t rest ih =>
    have later := ih fun u member => blank u (List.mem_cons_of_mem t member)
    cases chosen : p t with
    | true =>
      rw [List.filter_cons_of_pos chosen, textOf, List.flatMap_cons, textOf, List.flatMap_cons]
      exact congrArg (t.lexeme.toList ++ ·) later
    | false =>
      have empty := blank t List.mem_cons_self chosen
      rw [List.filter_cons_of_neg (by simp [chosen]), later]
      simp [textOf, empty]

/-- The text of tokens has as many bytes as their lexemes have together. -/
theorem byteLength_textOf (tokens : List Token) :
    byteLength (textOf tokens) = (tokens.map (·.lexeme.utf8ByteSize)).sum := by
  induction tokens with
  | nil => rfl
  | cons t rest ih =>
    rw [textOf, List.flatMap_cons, byteLength_append, byteLength_toList, List.map_cons,
      List.sum_cons, ← ih]
    rfl

variable {source : String} {before : List Token} {t : Token} {after : List Char}

/-- The bytes of a source at a stretch of its text. -/
theorem extract_toByteArray {front within behind : List Char}
    (split : source.toList = front ++ within ++ behind) :
    source.toByteArray.extract (byteLength front) (byteLength (front ++ within))
      = (String.ofList within).toByteArray := by
  have whole : source = String.ofList front ++ (String.ofList within ++ String.ofList behind) := by
    rw [← String.ofList_append, ← String.ofList_append, ← List.append_assoc, ← split,
      String.ofList_toList]
  have first : byteLength front = (String.ofList front).toByteArray.size := rfl
  rw [whole, String.toByteArray_append, String.toByteArray_append, byteLength_append, first]
  -- Behind the bytes in front, the cut begins at zero.
  exact (ByteArray.extract_append_size_add (i := 0)).trans (ByteArray.extract_append_eq_left rfl)

/-- A token that was read right behind the text of others.

Proof: the offsets are the lengths of what stands before and of what stands before and in the
token. The rest is read off the place that the token has. -/
theorem tiles_of_split (split : source.toList = textOf before ++ t.lexeme.toList ++ after)
    (span : t.span = Span.between (Position.origin.advanceAll (textOf before))
      (Position.origin.advanceAll (textOf before ++ t.lexeme.toList)))
    (written : t.kind ≠ .eof → t.lexeme ≠ "")
    (last : t.kind = .eof → t.lexeme = "" ∧ after = []) : t.Tiles source before := by
  have stands : t.StandsIn source := ⟨textOf before, after, split, span⟩
  have start : t.span.start = byteLength (textOf before) := by
    rw [span, Position.origin_advanceAll]
    rfl
  have stop : t.span.stop = byteLength (textOf before ++ t.lexeme.toList) := by
    rw [span, Position.origin_advanceAll (_ ++ _)]
    rfl
  constructor
  case start => rw [start, byteLength_textOf]
  case stop => rw [stop, start, byteLength_append, byteLength_toList]
  case slice => rw [start, stop, extract_toByteArray split, String.ofList_toList]
  case line => exact stands.real.line
  case column => exact stands.real.column
  case written => exact written
  case last =>
    intro isEnd
    obtain ⟨empty, nothing⟩ := last isEnd
    have whole : textOf before = source.toList := by
      rw [split, empty, nothing]
      simp
    have size : byteLength (textOf before) = source.utf8ByteSize := by
      rw [whole, byteLength_toList]
    refine ⟨?_, start.trans size, ?_⟩
    · rw [← ofList_textOf, whole, String.ofList_toList]
    · rw [stop, empty, String.toList_empty, List.append_nil, size]

end Token

namespace Cursor

/-! ## Steps -/

/-- All tokens of a cursor at the end. -/
theorem lex_of_nil {cursor : Cursor} (rest : cursor.rest = []) :
    cursor.lex = ([cursor.nextToken.1], cursor.nextToken.2) := by
  simp [lex, nextToken, rest, tokensFrom, Position.advanceAll_nil]

/-- All tokens of a cursor that has text ahead are the first one and all tokens
behind it. -/
theorem lex_of_cons {cursor : Cursor} {c : Char} {rest : List Char} (ahead : cursor.rest = c :: rest) :
    cursor.lex = (cursor.nextToken.1 :: cursor.nextToken.2.lex.1, cursor.nextToken.2.lex.2) := by
  simp only [lex, nextToken, ahead, tokensFrom, ← Position.advanceAll_append, Reading.read_lexeme]

/-- Where a cursor has come to by handing out tokens of a source. -/
structure Reached (source : String) (given : List Token) (cursor : Cursor) : Prop where
  text : source.toList = Token.textOf given ++ cursor.rest
  position : cursor.position = Position.origin.advanceAll (Token.textOf given)
  tokens : ∀ before t later, given = before ++ t :: later → t.Tiles source before
  finished : cursor.finished = true ↔ ∃ t ∈ given, t.kind = .eof
  ended : ∀ last ∈ given, last.kind = .eof → last = Token.endAt cursor.position ∧ cursor.rest = []

namespace Reached

variable {source : String} {given : List Token} {cursor : Cursor}

/-- At the start nothing was handed out, and all of the source is ahead. -/
theorem start (source : String) : Reached source [] (Cursor.start source) where
  text := rfl
  position := rfl
  tokens := by simp
  finished := by simp [Cursor.start]
  ended := by simp

/-- One more token among those that were handed out. -/
theorem tokens_concat (reached : Reached source given cursor) {t : Token}
    (tiles : t.Tiles source given) :
    ∀ before u later, given ++ [t] = before ++ u :: later → u.Tiles source before := by
  intro before u later split
  rcases List.eq_nil_or_concat later with rfl | ⟨others, v, rfl⟩
  · obtain ⟨rfl, same⟩ := List.append_inj' split rfl
    cases same
    exact tiles
  · rw [List.concat_eq_append, ← List.cons_append, ← List.append_assoc] at split
    obtain ⟨rfl, -⟩ := List.append_inj' split rfl
    exact reached.tokens before u others rfl

/-- At the end a step hands out the end token.

Proof: the end token has no text, so all that is said of texts stays, and it stands behind the
last of them. -/
theorem step_end (reached : Reached source given cursor) (rest : cursor.rest = []) :
    Reached source (given ++ [cursor.nextToken.1]) cursor.nextToken.2 := by
  have step : cursor.nextToken = (Token.endAt cursor.position, { cursor with finished := true }) := by
    simp [nextToken, rest]
  have lexeme : (Token.endAt cursor.position).lexeme.toList = [] := String.toList_empty
  have text := reached.text
  rw [step]
  constructor
  case text => rw [Token.textOf_concat, lexeme, List.append_nil, text]
  case position => rw [Token.textOf_concat, lexeme, List.append_nil, reached.position]
  case tokens =>
    apply reached.tokens_concat
    have split : source.toList
        = Token.textOf given ++ (Token.endAt cursor.position).lexeme.toList ++ [] := by
      rw [lexeme, List.append_nil, text, rest]
    refine Token.tiles_of_split split ?_ (fun other => absurd rfl other) fun _ => ⟨rfl, rfl⟩
    · rw [lexeme, List.append_nil, ← reached.position]
      rfl
  case finished => simp [Token.endAt]
  case ended =>
    intro last member isEnd
    rcases List.mem_append.mp member with earlier | new
    · exact ⟨(reached.ended last earlier isEnd).1, rest⟩
    · exact ⟨List.mem_singleton.mp new, rest⟩

/-- With text ahead a step hands out what is read there, which is no end.

Proof: the token that is handed out begins where the counters stand and has the lexeme that is
read there, so text and counters go on together behind it. -/
theorem step_read (reached : Reached source given cursor) {c : Char} {rest : List Char}
    (ahead : cursor.rest = c :: rest) :
    Reached source (given ++ [cursor.nextToken.1]) cursor.nextToken.2 := by
  have step : cursor.nextToken = ((Reading.read c rest).tokenAt cursor.position,
      { cursor with
        position := cursor.position.advanceAll (Reading.read c rest).lexeme
        rest := (Reading.read c rest).rest }) := by
    simp [nextToken, ahead]
  have notEnd : ((Reading.read c rest).tokenAt cursor.position).kind ≠ .eof :=
    (Reading.read_plausible c rest).kind
  have lexeme : ((Reading.read c rest).tokenAt cursor.position).lexeme.toList
      = (Reading.read c rest).lexeme := String.toList_ofList
  have text := reached.text
  rw [ahead, ← Reading.read_lexeme c rest, ← List.append_assoc] at text
  have unfinished : ¬ ∃ t ∈ given, t.kind = .eof := by
    rintro ⟨last, member, isEnd⟩
    exact List.cons_ne_nil c rest (ahead.symm.trans (reached.ended last member isEnd).2)
  rw [step]
  constructor
  case text => rw [Token.textOf_concat, lexeme, text]
  case position => rw [Token.textOf_concat, lexeme, reached.position, Position.advanceAll_append]
  case tokens =>
    apply reached.tokens_concat
    rw [← lexeme] at text
    refine Token.tiles_of_split text ?_ ?_ fun isEnd => absurd isEnd notEnd
    · rw [lexeme, Position.advanceAll_append, ← reached.position]
      rfl
    · exact fun _ => Token.IsRead.lexeme_ne_empty ⟨c, rest, cursor.position, rfl⟩
  case finished =>
    rw [reached.finished]
    simp [notEnd]
  case ended =>
    intro last member isEnd
    rcases List.mem_append.mp member with earlier | new
    · exact absurd ⟨last, earlier, isEnd⟩ unfinished
    · rw [List.mem_singleton.mp new] at isEnd
      exact absurd isEnd notEnd

/-- Handing out a token keeps what was handed out and what is ahead together the source, and the
counters at the place between the two. -/
theorem nextToken (reached : Reached source given cursor) :
    Reached source (given ++ [cursor.nextToken.1]) cursor.nextToken.2 := by
  cases ahead : cursor.rest with
  | nil => exact reached.step_end ahead
  | cons c rest => exact reached.step_read ahead

/-- All tokens are handed out one after the other. -/
theorem lex (reached : Reached source given cursor) :
    Reached source (given ++ cursor.lex.1) cursor.lex.2 := by
  induction count : cursor.rest.length using Nat.strongRecOn generalizing given cursor with
  | _ size ih =>
    have step := reached.nextToken
    cases ahead : cursor.rest with
    | nil =>
      rw [lex_of_nil ahead]
      exact step
    | cons c rest =>
      have shorter : cursor.nextToken.2.rest.length < size := by
        have := Reading.read_rest_length c rest
        simpa [Cursor.nextToken, ahead, ← count] using this
      have all := ih _ shorter step rfl
      rw [lex_of_cons ahead]
      rwa [List.append_assoc] at all

/-- The same where the sequence stops behind the end token. -/
theorem next? (reached : Reached source given cursor) :
    Reached source (given ++ cursor.next?.1.toList) cursor.next?.2 := by
  unfold Cursor.next?
  split
  · rw [Option.toList_none, List.append_nil]
    exact reached
  · exact reached.nextToken

/-- The same for any request: a single step, or all steps that are left. -/
theorem answer (reached : Reached source given cursor) (request : Request) :
    Reached source (given ++ (cursor.answer request).1) (cursor.answer request).2 := by
  cases request with
  | next => exact reached.next?
  | nextToken => exact reached.nextToken
  | lex => exact reached.lex

/-- The same for any requests, by induction on them. -/
theorem answers (reached : Reached source given cursor) (requests : List Request) :
    Reached source (given ++ (cursor.answers requests).1) (cursor.answers requests).2 := by
  induction requests generalizing given cursor with
  | nil =>
    rw [Cursor.answers, List.append_nil]
    exact reached
  | cons request more ih =>
    have all := ih (reached.answer request)
    rwa [List.append_assoc] at all

/-- What was handed out tiles the source, and what is handed out next is known.

Proof: the invariant says more than what is asked: which tokens there are, that they are the
text consumed, and that the end token is the last, if it was handed out. -/
theorem tiled (reached : Reached source given cursor) : Tiled source given cursor := by
  constructor
  case consumed =>
    have shown : Token.textOf (given.filter (·.kind ≠ .eof)) = Token.textOf given := by
      apply Token.textOf_filter
      intro t member isEnd
      obtain ⟨rfl, -⟩ := reached.ended t member (by simpa using isEnd)
      rfl
    rw [← Token.ofList_textOf, shown, ← String.ofList_append, ← reached.text, String.ofList_toList]
  case tokens => exact reached.tokens
  case going =>
    intro none_ended
    have unfinished : cursor.finished = false := by
      rw [Bool.eq_false_iff, ne_eq, reached.finished]
      rintro ⟨t, member, isEnd⟩
      exact none_ended t member isEnd
    simp [Cursor.next?, unfinished]
  case ended =>
    intro last member isEnd request
    obtain ⟨rfl, rest⟩ := reached.ended last member isEnd
    have finished : cursor.finished = true := reached.finished.mpr ⟨_, member, isEnd⟩
    cases request with
    | next => simp [Cursor.answer, Cursor.next?, finished, Request.atEnd]
    | nextToken => simp [Cursor.answer, Cursor.nextToken, rest, Request.atEnd]
    | lex => simp [Cursor.answer, Cursor.lex, rest, tokensFrom, Request.atEnd]
  case whole =>
    obtain ⟨shown, tokens, allRead⟩ := exists_tokensFrom cursor.position cursor.rest
    exact ⟨shown, _, tokens, rfl, fun t member => (allRead t member).kind_ne_eof⟩

end Reached

end Cursor

/-- Whatever a cursor was asked for, the tokens it handed out tile the source; in
particular all tokens of a source, layout included, are the source.

Proof: the invariant of a cursor holds at the start and along all requests, and gives the
tiling. For the whole source it is applied to the request for all tokens. -/
theorem requests_tile_source (source : String) (requests : List Cursor.Request) :
    Cursor.Tiled source ((Cursor.start source).answers requests).1
        ((Cursor.start source).answers requests).2
      ∧ String.join ((tokenizeWithTrivia source).map (·.lexeme)) = source := by
  refine ⟨((Cursor.Reached.start source).answers requests).tiled, ?_⟩
  have text : source.toList = Token.textOf (tokenizeWithTrivia source) ++ [] :=
    (Cursor.Reached.start source).lex.text
  rw [← Token.ofList_textOf, ← List.append_nil (Token.textOf _), ← text, String.ofList_toList]

end MessageSchema
