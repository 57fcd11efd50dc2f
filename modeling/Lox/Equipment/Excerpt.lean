/-
`Lox.Equipment.Excerpt` -- the lines of a text that a report shows.

A report counts in characters: an offset is the number of characters before a
place, and a column the number of characters before it on its line. Lines end
at any of the characters that break a line, and a carriage return together with
a line feed ends one line. A final line break does not begin another line, so
the end of a text is on the line that it ends.
-/
import Lox.Equipment.CellWidth

set_option autoImplicit false

namespace Lox.Equipment

/-! ## Lines -/

/-- The lines of a text, each with the characters that end it; `line` has the
characters of the first line that have been gone over, last one first. -/
def linesFrom (line : List Char) : List Char → List (List Char)
  | [] => if line.isEmpty then [] else [line.reverse]
  -- these two end one line together
  | '\r' :: '\n' :: rest => ('\n' :: '\r' :: line).reverse :: linesFrom [] rest
  | c :: rest =>
    if Text.breaksLine c then (c :: line).reverse :: linesFrom [] rest
    else linesFrom (c :: line) rest

/-- A line of a text: its number, counted from one, the offset it begins at, its
length with the characters that end it, and what is shown of it, its characters
without the blank space at its end. -/
structure Line where
  number : Nat
  start : Nat
  length : Nat
  chars : List Char
deriving Repr

/-- Some consecutive lines of a text, the first of which has this number and
begins at this offset. -/
def placed (number start : Nat) : List (List Char) → List Line
  | [] => []
  | line :: rest =>
    ⟨number, start, line.length, Text.dropTrailing Text.isBlank line⟩
      :: placed (number + 1) (start + line.length) rest

/-- The lines of a text. -/
def lines (text : List Char) : List Line :=
  placed 1 0 (linesFrom [] text)

namespace Line

/-- The offset at which a line has ended and the next one begins. -/
def stop (l : Line) : Nat :=
  l.start + l.length

/-- Whether the character at an offset is one of a line's. -/
def contains (l : Line) (offset : Nat) : Bool :=
  l.start ≤ offset && offset < l.stop

/-- The cells that a column fills. Behind the end of the line each fills one. -/
def width (l : Line) (column : Nat) : Nat :=
  match l.chars[column]? with
  | some c => cellWidth column c
  | none => 1

/-- A character of the line as it is drawn: blank space as spaces. -/
def drawChar (column : Nat) (c : Char) : List Char :=
  if Text.isBlank c then List.replicate (cellWidth column c) ' ' else [c]

/-- The line as it is drawn. -/
def drawn (l : Line) : String :=
  String.ofList (l.chars.mapIdx drawChar).flatten

end Line

/-! ## Excerpts -/

/-- Of lines in their order, the one on which an offset lies: the last one that
begins at or before it. -/
def lineAt? (lines : List Line) (offset : Nat) : Option Line :=
  (lines.takeWhile (·.start ≤ offset)).getLast?

/-- The lines that a stretch of text lies on, from the first to the last. -/
structure Excerpt where
  first : Line
  last : Line
deriving Repr

namespace Excerpt

/-- The lines from that of one offset to that of another. -/
def between? (text : List Char) (start last : Nat) : Option Excerpt := do
  let lines := lines text
  return ⟨← lineAt? lines start, ← lineAt? lines last⟩

/-- Whether an excerpt has only one line. -/
def isSingle (e : Excerpt) : Bool :=
  e.first.number == e.last.number

end Excerpt

end Lox.Equipment
