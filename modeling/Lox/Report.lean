/-
`Lox.Report` -- what is drawn of a diagnostic.

A report is a drawing: the header, the place, the line of the text with the piece that
is meant marked in it, and remarks. Drawing it is left to others. They are handed a
sketch, which says what is to be seen on the report and where in the text it belongs; the
offsets in it are those of the diagnostic, as they are, and count bytes.
-/
import Lox.Diagnostic

set_option autoImplicit false

namespace Lox.Report

/-- A stretch of a text, from one offset up to but not including another, and what is to be
said about it. -/
structure Mark where
  start : Nat
  stop : Nat
  message : String
deriving DecidableEq, Repr

/-- What a report is drawn from. `offset` is the place in the file that it is about. Notes are
given one after the other. -/
structure Sketch where
  fileName : String
  text : String
  offset : Nat
  code : Option String
  message : String
  marks : List Mark
  notes : List String
  help : Option String
  colors : Bool
deriving DecidableEq, Repr

namespace Sketch

/-- The sketch of a diagnostic over the text of a file. Notes and help are hints. -/
def ofDiagnostic (text fileName : String) (hints colors : Bool) (d : Diagnostic) : Sketch :=
  { fileName
    text
    offset := d.span.start
    code := d.code.map Code.text
    message := d.message
    marks := d.labels.map fun label => ⟨label.span.start, label.span.stop, label.message⟩
    notes := if hints then d.notes else []
    help := if hints then d.help else none
    colors }

/-- The first line of a report. All reports are about errors. -/
def header (s : Sketch) : String :=
  let code := match s.code with
    | some code => "[" ++ code ++ "] "
    | none => ""
  code ++ "Error: " ++ s.message

/-- What is said below the marks: the help, and the note. A report has one note, so a further
one takes the place of that before. -/
def remarks (s : Sketch) : List String :=
  (s.help.map fun text => "Help: " ++ text).toList
    ++ (s.notes.getLast?.map fun text => "Note: " ++ text).toList

end Sketch

/-- What draws reports. It has no text to show for a sketch if the report cannot be
written. -/
abbrev Artist := Sketch → Option String

end Lox.Report
