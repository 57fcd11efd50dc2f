/-
`Lox.Command.Prompt` -- programs given line by line.

At the prompt each line is a program of its own, all run by the same machine, so
later lines see what earlier ones declared. Lines that begin with a colon are
for the prompt itself. A mistake costs only its line; a line that cannot be read
ends the command. How a line is typed is not seen here, only what comes of it.
-/
import Lox.Command.Desk
import Lox.Text.Blank

set_option autoImplicit false

namespace Lox.Command

/-! ## Lines -/

/-- What comes of asking for a line. The input is at its end where nothing comes. -/
inductive Typed where
  | line (text : String)
  /-- The line was given up. -/
  | interrupted
  | unreadable (problem : ReadProblem)
deriving DecidableEq, Repr

/-! ## The prompt's own commands -/

/-- What stands before the first line. -/
def banner : List String :=
  ["Lox REPL v" ++ version, "Type :help for help, :quit to exit", ""]

/-- The list of the prompt's own commands. -/
def helpLines : List String :=
  ["Commands:",
    "  :help, :h    Show this help",
    "  :quit, :q    Exit the REPL",
    "  :env         Show global bindings"]

/-- Writes the global names and their values. -/
def showGlobals : Job Unit := do
  (← get).machine.globalBindings.forM fun (name, value) =>
    sayLine ("  " ++ name ++ " = " ++ value.display)

/-- Runs a line; what is wrong with it has been written when it ends. -/
def runLine (fuel : Nat) (settings : Settings) (line : String) : Job Unit := fun d =>
  match runSource fuel settings true ⟨"<repl>", line⟩ d with
  | .ok _ d => .ok () d
  | .error _ d => .ok () d

/-- Deals with a line without the blank space around it, and says whether to go
on. -/
def dealWith (fuel : Nat) (settings : Settings) (line : String) : Job Bool := do
  if line.isEmpty then return true
  else if ":".isPrefixOf line then
    if line = ":quit" || line = ":q" then return false
    else if line = ":help" || line = ":h" then helpLines.forM sayLine
    else if line = ":env" then showGlobals
    else sayLine ("Unknown command: " ++ line)
    return true
  else
    runLine fuel settings line
    return true

/-- Deals with lines up to one that ends the prompt. -/
def dealWithAll (fuel : Nat) (settings : Settings) : List Typed → Job Unit
  | [] => return
  | .unreadable problem :: _ => throw (.unreadableLine problem)
  | .interrupted :: rest => do
    sayLine "^C"
    dealWithAll fuel settings rest
  | .line text :: rest => do
    if ← dealWith fuel settings (Text.trimBlank text) then dealWithAll fuel settings rest

/-- The prompt, from its first word to its last. -/
def prompt (fuel : Nat) (settings : Settings) (typed : List Typed) : Job Unit := do
  banner.forM sayLine
  dealWithAll fuel settings typed
  sayLine "Goodbye!"

end Lox.Command
