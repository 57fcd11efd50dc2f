/-
`Lox.Equipment.LineReader` -- the lines of an input that is no terminal.

Nothing is shown, and nobody can give a line up. A line ends with a line feed, or
with the input.
-/
import Lox.Command.Prompt
import Lox.Equipment.TypedLine

set_option autoImplicit false

namespace Lox.Equipment

open Command (Typed)

/-- Bytes cut behind each line feed; `line` has the bytes of the first line that
have been gone over, last one first. Line feeds are left out. -/
def cutLines (line : List UInt8) : List UInt8 → List (List UInt8)
  | [] => if line.isEmpty then [] else [line.reverse]
  | byte :: rest =>
    if byte = 0x0A then line.reverse :: cutLines [] rest
    else cutLines (byte :: line) rest

/-- A line with its backspaces obeyed, if it is text. A carriage return at its end
is blank space, and goes when the line is trimmed. -/
def typedLine (bytes : List UInt8) : Typed :=
  match String.fromUTF8? ⟨bytes.toArray⟩ with
  | some text => .line (String.ofList (afterBackspaces text.toList))
  | none => .unreadable .notText

/-- The lines of an input. -/
def inputLines (bytes : ByteArray) : List Typed :=
  (cutLines [] bytes.toList).map typedLine

end Lox.Equipment
