/-
`Lox.Equipment.CellWidth` -- how many cells of a terminal line a character fills.

A drawn report puts marks under the characters of a source line, so it has to
know how wide each of them appears: none for what is drawn together with a
neighbour, two cells for the wide characters of East Asian scripts and for
pictographs, one for everything else, an unassigned code point included. A
combining mark of an East Asian script is in both classes, and takes none. Blank
space is one cell, except a tab, which reaches to the next stop.
-/
import Lox.Equipment.EastAsianWide
import Lox.Equipment.ZeroWidth

set_option autoImplicit false

namespace Lox.Equipment

open Text

/-- The cells that a character fills wherever it stands. Two Khmer signs are
written as several letters side by side and fill as many cells. -/
def charWidth (c : Char) : Nat :=
  if c = '\u17A4' then 2
  else if c = '\u17D8' then 3
  else if isZeroWidth c then 0
  else if isWide c then 2
  else 1

example : charWidth 'a' = 1 ∧ charWidth 'é' = 1 ∧ charWidth '日' = 2 ∧ charWidth '\u0301' = 0 := by
  decide +kernel

/-- An ideographic tone mark is wide by its script and takes no cell. -/
example : isWide '\u302A' = true ∧ charWidth '\u302A' = 0 := by
  decide +kernel

/-- Tab stops stand at every fourth column. -/
def tabStop : Nat := 4

/-- The cells that a character fills in a column of its line. Columns count
characters, not cells, also for the tab stops. -/
def cellWidth (column : Nat) (c : Char) : Nat :=
  if c = '\t' then tabStop - column % tabStop
  else if isBlank c then 1
  else charWidth c

end Lox.Equipment
