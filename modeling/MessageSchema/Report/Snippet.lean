/-!
# Source lines around a place

A report shows the lines that a label touches and one line before and after
them. Offsets and lengths count bytes. A label without length still marks a
place, and one that ends beyond the text by more than one byte cannot be shown.
-/

namespace MessageSchema.Report

/-- A line of a text: its number from one, its bytes with the newline, and its
characters without. -/
structure Line where
  number : Nat
  start : Nat
  stop : Nat
  text : List Char

/-- The number of bytes of a text. -/
def byteLength (text : List Char) : Nat :=
  (String.ofList text).utf8ByteSize

/-- The lines of a text that begins in line `number` at byte `start`, given what
was already read of the first one, last character first. No line follows a
newline at the end. -/
def linesFrom (number start : Nat) (read : List Char) : List Char → List Line
  | [] =>
    if read.isEmpty then [] else [⟨number, start, start + byteLength read, read.reverse⟩]
  | c :: rest =>
    if c = '\n' then
      let stop := start + byteLength read + 1
      ⟨number, start, stop, read.reverse⟩ :: linesFrom (number + 1) stop [] rest
    else linesFrom number start (c :: read) rest

/-- The lines of a text. -/
def linesOf (text : List Char) : List Line :=
  linesFrom 1 0 [] text

/-- The offsets of the newlines of a text that begins at `offset`. -/
def newlinesFrom (offset : Nat) : List Char → List Nat
  | [] => []
  | c :: rest =>
    let more := newlinesFrom (offset + c.utf8Size) rest
    if c = '\n' then offset :: more else more

/-- The number of lines that end before a byte. -/
def lineIndex (text : List Char) (offset : Nat) : Nat :=
  ((newlinesFrom 0 text).filter (· < offset)).length

/-- A stretch of bytes to be marked. -/
structure Label where
  offset : Nat
  length : Nat

namespace Label

/-- The byte behind the label. -/
def stop (label : Label) : Nat :=
  label.offset + label.length

/-- The byte behind the label, which is taken to have at least one. -/
def visibleStop (label : Label) : Nat :=
  label.offset + max label.length 1

/-- Whether the label can be shown: its last byte is at most one beyond the text. -/
def fits (label : Label) (text : List Char) : Bool :=
  label.stop - 1 ≤ byteLength text

/-- The lines to be shown: from the line before the label's first to the line
after its last. -/
def context (label : Label) (text : List Char) : List Line :=
  let first := lineIndex text label.offset
  let last := lineIndex text (max label.stop 1)
  ((linesOf text).take (last + 2)).drop (first - 1)

/-- The line and column of the label, both from one. The column counts bytes. -/
def place (label : Label) (text : List Char) : Nat × Nat :=
  let before := (newlinesFrom 0 text).filter (· < label.offset)
  let lineStart := (before.getLast?.map (· + 1)).getD 0
  (before.length + 1, min label.offset (byteLength text) - lineStart + 1)

/-- Whether the label begins in a line. -/
def beginsIn (label : Label) (line : Line) : Bool :=
  line.start ≤ label.offset && label.offset < line.stop

/-- Whether the label, with at least one byte, ends in a line. -/
def endsIn (label : Label) (line : Line) : Bool :=
  line.start < label.visibleStop && label.visibleStop ≤ line.stop

/-- Whether the label passes over a whole line from an earlier one to a later one. -/
def spansOver (label : Label) (line : Line) : Bool :=
  label.offset < line.start && line.stop < label.visibleStop

/-- Whether the label touches a line. -/
def touches (label : Label) (line : Line) : Bool :=
  label.beginsIn line || label.spansOver line || label.endsIn line

/-- Whether a line is one of several that the label touches. -/
def needsGutter (label : Label) (line : Line) : Bool :=
  label.touches line && !(label.beginsIn line && label.endsIn line)

/-- Whether the label lies in a line. -/
def within (label : Label) (line : Line) : Bool :=
  line.start ≤ label.offset && label.stop ≤ line.stop

/-- Whether the label's end lies in a line, the ends of the line included. -/
def reachesEndIn (label : Label) (line : Line) : Bool :=
  line.start ≤ label.stop && label.stop ≤ line.stop

end Label

/-! ## Columns -/

/-- The width between two stops of the tab. -/
def tabWidth : Nat := 4

/-- The column behind a character. Every character but the tab takes one. -/
def columnAfter (column : Nat) (c : Char) : Nat :=
  if c = '\t' then (column / tabWidth + 1) * tabWidth else column + 1

/-- The column at a byte of a line, given the column at the line's beginning. A
byte inside a character counts as the character's beginning or, if `roundUp`, as
its end; a byte behind the line is one column behind it. -/
def columnAt (roundUp : Bool) (column : Nat) : List Char → Nat → Nat
  | _, 0 => column
  | [], _ + 1 => column + 1
  | c :: rest, bytes =>
    if c.utf8Size ≤ bytes then columnAt roundUp (columnAfter column c) rest (bytes - c.utf8Size)
    else if roundUp then columnAfter column c
    else column

/-- A line with blanks in place of tabs, given the column of its beginning. -/
def expandTabs (column : Nat) : List Char → List Char
  | [] => []
  | c :: rest =>
    let after := columnAfter column c
    (if c = '\t' then List.replicate (after - column) ' ' else [c]) ++ expandTabs after rest

/-- The columns of a label in a line: its first, and the one behind its last, at
least one further. -/
def Label.columns (label : Label) (line : Line) : Nat × Nat :=
  let first := columnAt false 0 line.text (label.offset - line.start)
  if label.length = 0 then (first, first + 1)
  else (first, max (columnAt true 0 line.text (label.stop - line.start)) (first + 1))

end MessageSchema.Report
