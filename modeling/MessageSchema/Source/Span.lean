/-!
# Positions and spans

A position counts bytes from the beginning of the text and, for people, lines
and the characters of a line, both from one. A span is a stretch of bytes with
the line and column of its start. Only a newline begins a new line.
-/

namespace MessageSchema

/-- A place between two characters of a text. -/
structure Position where
  offset : Nat
  line : Nat
  column : Nat
deriving DecidableEq

namespace Position

/-- The beginning of every text. -/
def origin : Position := ⟨0, 1, 1⟩

/-- The place behind the character `c`. -/
def advance (p : Position) (c : Char) : Position :=
  if c = '\n' then ⟨p.offset + c.utf8Size, p.line + 1, 1⟩
  else ⟨p.offset + c.utf8Size, p.line, p.column + 1⟩

/-- The place behind a run of characters. -/
def advanceAll (p : Position) (text : List Char) : Position :=
  text.foldl advance p

/-- Nothing moves a position by nothing. -/
theorem advanceAll_nil (p : Position) : p.advanceAll [] = p := rfl

/-- Characters are counted from the left. -/
theorem advanceAll_cons (p : Position) (c : Char) (text : List Char) :
    p.advanceAll (c :: text) = (p.advance c).advanceAll text := rfl

/-- A text can be counted in two parts. The induction is on the first part, since counting goes
from the left. -/
theorem advanceAll_append (p : Position) (first second : List Char) :
    p.advanceAll (first ++ second) = (p.advanceAll first).advanceAll second := by
  simp only [advanceAll, List.foldl_append]

end Position

/-- A stretch of bytes. `line` and `column` are those of `start`. -/
structure Span where
  start : Nat
  stop : Nat
  line : Nat
  column : Nat
deriving DecidableEq

namespace Span

/-- The span of an empty text. -/
def origin : Span := ⟨0, 0, 1, 1⟩

/-- The span from one position to a later one. -/
def between (first last : Position) : Span :=
  ⟨first.offset, last.offset, first.line, first.column⟩

/-- The zero-width span at the start of `s`. -/
def emptyAtStart (s : Span) : Span :=
  ⟨s.start, s.start, s.line, s.column⟩

/-- The number of bytes. -/
def length (s : Span) : Nat :=
  s.stop - s.start

/-- Whether a span has no bytes. -/
def isEmpty (s : Span) : Bool :=
  s.start == s.stop

/-- Whether `other` lies within `s`, the ends included. -/
def contains (s other : Span) : Bool :=
  s.start ≤ other.start && other.stop ≤ s.stop

/-- Whether the byte at `offset` belongs to `s`. -/
def containsOffset (s : Span) (offset : Nat) : Bool :=
  s.start ≤ offset && offset < s.stop

/-- The smallest span that covers both. Line and column follow whichever starts
first, and `s` when both start together. -/
def union (s other : Span) : Span :=
  let first := if other.start < s.start then other else s
  ⟨first.start, max s.stop other.stop, first.line, first.column⟩

/-- The smallest span that covers all of a list, if it has any. -/
def unionAll? : List Span → Option Span
  | [] => none
  | s :: rest => some (rest.foldl union s)

end Span

end MessageSchema
