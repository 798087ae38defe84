import MessageSchema.Analysis
import MessageSchema.Report.Snippet

/-!
# Reports for a terminal

A report has the code of the problem, its message, the source lines around the
place with a mark and a label under it, and advice where there is any. A label
that goes over several lines has its mark in a gutter left of them.
-/

namespace MessageSchema.Report

/-- A text of `n` blanks. -/
def blanks (n : Nat) : String :=
  String.ofList (List.replicate n ' ')

/-- A horizontal bar of a width. -/
def bar (n : Nat) : String :=
  String.ofList (List.replicate n '─')

/-- A number at the right of a column. -/
def rightAligned (width n : Nat) : String :=
  let digits := toString n
  blanks (width - digits.length) ++ digits

/-- What is shown of a source for a label. -/
structure View where
  label : Label
  caption : String
  lines : List Line
  /-- The width of the line numbers. -/
  width : Nat
  /-- Whether there is a gutter for a mark over several lines. -/
  gutter : Bool

namespace View

/-- The view of a label in a source. -/
def ofLabel (label : Label) (caption : String) (text : List Char) : View :=
  let lines := label.context text
  { label, caption, lines
    width := (lines.getLast?.map fun line => (toString line.number).length).getD 1
    gutter := lines.any fun line => !label.within line && label.needsGutter line }

/-- The gutter beside a source line. -/
def gutterBeside (view : View) (line : Line) : String :=
  if !view.gutter then ""
  else if !view.label.needsGutter line then "    "
  else if line.start ≤ view.label.offset then "╭─▶ "
  else if view.label.reachesEndIn line then "├─▶ "
  else "│   "

/-- The gutter beside the marks under a source line. -/
def gutterBelow (view : View) (line : Line) : String :=
  if !view.gutter then "" else if !view.label.needsGutter line then "    " else "│   "

/-- The beginning of a line that is not of the source. -/
def margin (view : View) : String :=
  " " ++ blanks view.width ++ " · "

/-- A line of the source. -/
def sourceLine (view : View) (line : Line) : String :=
  " " ++ rightAligned view.width line.number ++ " │ " ++ view.gutterBeside line
    ++ String.ofList (expandTabs 0 line.text)

/-- The mark under a label within one line, and the caption under the mark. -/
def markLines (view : View) (line : Line) : List String :=
  let (first, last) := view.label.columns line
  let middle := (first + last) / 2
  let point := if view.label.length = 0 then "▲" else "┬"
  let start := view.margin ++ view.gutterBelow line
  [start ++ blanks first ++ bar (middle - first) ++ point ++ bar (last - middle - 1),
   start ++ blanks middle ++ "╰── " ++ view.caption]

/-- What stands under a source line. -/
def linesBelow (view : View) (line : Line) : List String :=
  if !view.label.touches line then []
  else if view.label.within line then view.markLines line
  else if view.label.reachesEndIn line && view.label.offset < line.start then
    [view.margin ++ "╰──── " ++ view.caption]
  else []

/-- All lines of a view, between a head with the place and a foot. -/
def render (view : View) (name : String) (place : Nat × Nat) : List String :=
  [blanks (view.width + 2) ++ "╭─[" ++ name ++ ":" ++ toString place.1 ++ ":" ++ toString place.2
      ++ "]"]
    ++ view.lines.flatMap (fun line => view.sourceLine line :: view.linesBelow line)
    ++ [blanks (view.width + 2) ++ "╰────"]

end View

/-- The source lines of a label, or a line that says that there are none. -/
def snippet (name : String) (text : List Char) (label : Label) (caption : String) : List String :=
  if label.fits text then
    (View.ofLabel label caption text).render name (label.place text)
  else
    ["  [Failed to read contents for label `" ++ caption ++ "` (offset: " ++ toString label.offset
      ++ ", length: " ++ toString label.length ++ "): OutOfBounds]"]

/-- The sign in front of a message. -/
def severitySign : Severity → String
  | .error => "×"
  | .warning => "⚠"

/-- The lines of a text, of which the last one may be empty. -/
def splitLines : List Char → List (List Char)
  | [] => [[]]
  | c :: rest =>
    match splitLines rest with
    | [] => [[c]]
    | first :: more => if c = '\n' then [] :: first :: more else (c :: first) :: more

/-- A line without the blanks at its end. -/
def withoutTrailingBlanks (line : List Char) : List Char :=
  (line.reverse.dropWhile (· == ' ')).reverse

/-- The lines of a text behind a head. Blanks at the end of a line are left out. -/
def paragraph (first further : String) : List (List Char) → List String
  | [] => []
  | line :: rest =>
    (first ++ String.ofList (withoutTrailingBlanks line)) :: paragraph further further rest

/-- The message of a report behind its sign. -/
def messageLines (d : Diagnostic) : List String :=
  paragraph ("  " ++ severitySign d.severity ++ " ") "  │ " (splitLines d.message.toList)

/-- The advice of a report, if it has any. -/
def helpLines (d : Diagnostic) : List String :=
  match d.problem.help? with
  | none => []
  | some help => paragraph "  help: " (blanks 8) (splitLines help.toList)

/-- The lines of a report. -/
def lines (name : String) (text : List Char) (d : Diagnostic) : List String :=
  [d.code, ""] ++ messageLines d
    ++ snippet name text ⟨d.span.start, d.span.length⟩ d.problem.label
    ++ helpLines d

end Report

/-- Reports of findings against their source, one after the other. -/
def renderReports (name source : String) (ds : List Diagnostic) : String :=
  String.join ((ds.flatMap (Report.lines name source.toList)).map (· ++ "\n"))

/-- Reports of all that an analysis found in its source. -/
def Analysis.render (analysis : Analysis) (source : String) : String :=
  renderReports analysis.document.name source analysis.diagnostics

end MessageSchema
