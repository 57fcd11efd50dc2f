/-
`Lox.Diagnostic` -- a message about a program.

A diagnostic says what is wrong and where, and may add labels that point into
the text, notes that explain, and one help text. It is built up from a bare
message by the `with` functions, each of which adds one part. It has two
renderings: the line given here, and the drawing of `Lox.Report`.
-/
import Lox.Span
import Lox.Diagnostic.Code

set_option autoImplicit false

namespace Lox

/-- The stage of the work at which a mistake comes to light. -/
inductive Stage where
  | lexing
  | parsing
  | running
deriving DecidableEq, Repr

/-- A remark on a piece of the text. -/
structure Label where
  span : Span
  message : String
deriving DecidableEq, Repr

/-- A message about a program. `location` is the place in words, such as
`at 'x'`. -/
structure Diagnostic where
  stage : Stage
  code : Option Code
  message : String
  span : Span
  location : Option String
  labels : List Label
  notes : List String
  help : Option String
deriving DecidableEq, Repr

namespace Diagnostic

/-- A message without any of the optional parts. -/
def bare (stage : Stage) (span : Span) (message : String) : Diagnostic :=
  { stage, span, message, code := none, location := none, labels := [], notes := [], help := none }

/-- The same with a code. What the code suggests becomes the help, unless a
help text has been given already. -/
def withCode (d : Diagnostic) (code : Code) : Diagnostic :=
  { d with code := some code, help := d.help <|> code.suggestion? }

/-- The same with a place in words, in place of an earlier one. -/
def withLocation (d : Diagnostic) (location : String) : Diagnostic :=
  { d with location := some location }

/-- The same with a further label. -/
def withLabel (d : Diagnostic) (span : Span) (message : String) : Diagnostic :=
  { d with labels := d.labels ++ [⟨span, message⟩] }

/-- The same with a further note. -/
def withNote (d : Diagnostic) (note : String) : Diagnostic :=
  { d with notes := d.notes ++ [note] }

/-- The same with a help text, in place of an earlier one. -/
def withHelp (d : Diagnostic) (help : String) : Diagnostic :=
  { d with help := some help }

/-- The diagnostic as one line of text. -/
def text (d : Diagnostic) : String :=
  let place := match d.location with
    | some location => " " ++ location
    | none => ""
  "[line " ++ toString d.span.line ++ "] Error" ++ place ++ ": " ++ d.message

example : ((bare .parsing ⟨4, 5, 2⟩ "Expect ';'.").withLocation "at '\x7d'").text
    = "[line 2] Error at '\x7d': Expect ';'." := by decide

end Diagnostic

end Lox
