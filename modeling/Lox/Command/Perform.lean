/-
`Lox.Command.Perform` -- the command with the tools that it is used with.

Messages go to no terminal.
-/
import Lox.Equipment.Arguments
import Lox.Equipment.Drawing
import Lox.Equipment.LineReader

set_option autoImplicit false

namespace Lox.Command

/-- The tools that there are. -/
def Tools.standard : Tools where
  parse := Equipment.parse
  draw := fun sketch => some (Equipment.draw sketch)
  lines := Equipment.inputLines
  terminal := false

/-- The outcome of a command line. -/
def perform (fuel : Nat) (world : World) (args : List String) : Outcome :=
  performWith .standard fuel world args

end Lox.Command
