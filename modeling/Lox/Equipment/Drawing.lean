/-
`Lox.Equipment.Drawing` -- reports, drawn over the text they are about.

A report shows the line that a label points into, marks the labelled columns
under it, and leads from the middle of them to the label's message:

    [E0300] Error: Undefined variable 'x'.
       ╭─[a.lox:1:7]
       │
     1 │ print x;
       │       ┬
       │       ╰── error occurred here
    ───╯

A label that runs over several lines is bracketed at their left, with a gap for
the lines between its first and its last:

     1 │ ╭─▶ "one
       ┆ ┆
     3 │ ├─▶ three
       │ │
       │ ╰───────── unterminated string

Help and the last note follow below. The offsets of a label are taken for counts
of characters. A label that ends beyond its line leaves an empty excerpt, and one
that lies outside the text leaves only the header of the report. There are no
colours.
-/
import Lox.Equipment.Excerpt
import Lox.Report

set_option autoImplicit false

namespace Lox.Equipment

open Report (Mark Sketch)

/-! ## Labels on one line -/

/-- The cells of a column: a mark in the first and a filler in the others. -/
def cells (width : Nat) (mark filler : Char) : List Char :=
  match width with
  | 0 => []
  | more + 1 => mark :: List.replicate more filler

/-- What stands under the first columns of a line, given for each column as its
mark and its filler. -/
def markRow (line : Line) (columns : Nat) (mark : Nat → Char × Char) : String :=
  String.ofList <| (List.range columns).flatMap fun column =>
    cells (line.width column) (mark column).1 (mark column).2

/-- The labelled columns of a line, from `start` up to but not including `stop`,
and the one from which a line leads to the message. -/
structure Underline where
  start : Nat
  stop : Nat
  middle : Nat

namespace Underline

/-- The underline of a label on a line that begins at an offset. -/
def ofMark (label : Mark) (lineStart : Nat) : Underline :=
  ⟨label.start - lineStart, label.stop - lineStart, (label.start + label.stop) / 2 - lineStart⟩

/-- What stands under a column: a line under the labelled ones, with a branch
downwards in the middle. An empty label has only the branch. -/
def mark (u : Underline) (column : Nat) : Char × Char :=
  if column = u.middle ∧ u.start = u.stop then ('│', ' ')
  else if u.start ≤ column ∧ column < u.stop then
    if column = u.middle then ('┬', '─') else ('─', '─')
  else (' ', ' ')

/-- What stands two lines under a column: from the middle on, the line that leads
to the message. -/
def lead (u : Underline) (column : Nat) : Char × Char :=
  if column < u.middle then (' ', ' ')
  else if column = u.middle then ('╰', '─')
  else ('─', '─')

/-- The columns that the marks reach over: two more than the label does. -/
def columns (u : Underline) : Nat :=
  u.stop + 2

end Underline

/-! ## Margins -/

/-- So many copies of a character. -/
def repeated (count : Nat) (c : Char) : String :=
  String.ofList (List.replicate count c)

/-- The margin beside a line of the text: its number, in a field so many
characters wide, and the rule. -/
def numberedMargin (width : Nat) (line : Line) : String :=
  let number := toString line.number
  " " ++ repeated (width - number.length) ' ' ++ number ++ " │ "

/-- The margin beside everything else that stands in the frame. -/
def blankMargin (width : Nat) : String :=
  repeated (width + 2) ' ' ++ "│ "

/-- The margin beside lines that are left out. -/
def gapMargin (width : Nat) : String :=
  repeated (width + 2) ' ' ++ "┆ "

/-! ## The drawn excerpt -/

/-- A line with a label on it. A label that ends beyond the line is not drawn, and
neither is the line. -/
def drawSingle (width : Nat) (line : Line) (label : Mark) : List String :=
  if label.stop ≤ line.stop then
    let underline := Underline.ofMark label line.start
    [numberedMargin width line ++ line.drawn,
      blankMargin width ++ markRow line underline.columns underline.mark,
      blankMargin width ++ markRow line underline.columns underline.lead ++ " " ++ label.message]
  else [blankMargin width]

/-- The last line of a label that runs over several, with the message under it. -/
def drawEnd (width : Nat) (line : Line) (label : Mark) : List String :=
  let columns := line.length + 2
  [numberedMargin width line ++ "├─▶ " ++ line.drawn,
    blankMargin width ++ "│   " ++ markRow line columns (fun _ => (' ', ' ')),
    blankMargin width ++ "╰───" ++ markRow line columns (fun _ => ('─', '─')) ++ " "
      ++ label.message]

/-- The lines of a label that runs over several. One that ends behind the last
character of the text has no line to end on, and a gap stands for it. -/
def drawSeveral (width : Nat) (e : Excerpt) (label : Mark) : List String :=
  let ends := e.last.contains (label.stop - 1)
  let gap := e.first.number + 1 < e.last.number || !ends
  [numberedMargin width e.first ++ "╭─▶ " ++ e.first.drawn]
  ++ (if gap then [gapMargin width ++ "┆   "] else [])
  ++ (if ends then drawEnd width e.last label else [])

/-- What stands between the margin and a remark. Under a label over several lines
the remarks keep clear of its bracket, a piece of which shows if the label begins
where the text's first line has ended. -/
def remarkIndent (e : Excerpt) (label : Mark) : String :=
  if e.isSingle then ""
  else if e.first.number = 2 ∧ label.start = e.first.start then "│   "
  else "    "

/-! ## Reports -/

/-- Whether a label lies outside a text with so many characters. -/
def isOutside (label : Mark) (length : Nat) : Bool :=
  length == 0 || label.start > length || (label.stop > label.start && label.stop - 1 > length)

/-- The lines of a report below its first one. -/
def body (fileName : String) (e : Excerpt) (label : Mark) (remarks : List String) :
    List String :=
  let width := (toString e.last.number).length
  let place := fileName ++ ":" ++ toString e.first.number ++ ":"
    ++ toString (label.start - e.first.start + 1)
  let beside := blankMargin width ++ remarkIndent e label
  [repeated (width + 2) ' ' ++ "╭─[" ++ place ++ "]", repeated (width + 2) ' ' ++ "│"]
  ++ (if e.isSingle then drawSingle width e.first label else drawSeveral width e label)
  ++ remarks.flatMap (fun remark => [beside, beside ++ remark])
  ++ [repeated (width + 2) '─' ++ "╯"]

/-- The lines and the label that a report shows, if its label lies in the text.
An empty label lies on the line of its place, another one on the lines from that
of its first character to that of its last. -/
def subject? (s : Sketch) : Option (Excerpt × Mark) := do
  let label ← s.marks.head?
  if isOutside label s.text.length then none
  else
    let excerpt ← Excerpt.between? s.text.toList label.start
      (max label.start (label.stop - 1))
    return (excerpt, label)

/-- The lines of a report. -/
def reportLines (s : Sketch) : List String :=
  s.header :: match subject? s with
    | some (excerpt, label) => body s.fileName excerpt label s.remarks
    | none => []

/-- The report that a sketch is drawn as, each line ended by a line feed. -/
def draw (s : Sketch) : String :=
  String.join ((reportLines s).map (· ++ "\n"))

end Lox.Equipment
