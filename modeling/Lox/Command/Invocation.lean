/-
`Lox.Command.Invocation` -- what the command line asks for.

The arguments of a command line are read by a library, which finds out what has been
given: a command with what belongs to it, or a file and no command, and flags. What that
asks for is decided here. A file without a command is run, and without either the prompt
is opened. Flags say how to talk about it.
-/
import Lox.Report

set_option autoImplicit false

namespace Lox.Command

/-! ## What has been given -/

/-- A command that has been named, and what belongs to it. -/
inductive Subcommand where
  | run (file : String)
  | eval (source : String)
  | check (file : String) (showTree : Bool)
  | repl
deriving DecidableEq, Repr

/-- What has been found among the arguments. `file` stands where no command is named. -/
structure Arguments where
  command : Option Subcommand
  file : Option String
  verbose : Bool
  quiet : Bool
  noColor : Bool
  noHints : Bool
deriving DecidableEq, Repr

namespace Arguments

/-- Nothing has been given. -/
def nothing : Arguments :=
  { command := none, file := none, verbose := false, quiet := false, noColor := false,
    noHints := false }

end Arguments

/-- The flags that say how to talk. They belong to no command, so they may stand anywhere. -/
inductive Flag where
  | verbose | quiet | noColor | noHints
deriving DecidableEq, Repr

namespace Flag

/-- The flag as it is written. -/
def text : Flag → String
  | verbose => "--verbose"
  | quiet => "--quiet"
  | noColor => "--no-color"
  | noHints => "--no-hints"

/-- Whether a flag has been given. -/
def isSet (a : Arguments) : Flag → Bool
  | verbose => a.verbose
  | quiet => a.quiet
  | noColor => a.noColor
  | noHints => a.noHints

/-- The arguments with a flag. -/
def set (a : Arguments) : Flag → Arguments
  | verbose => { a with verbose := true }
  | quiet => { a with quiet := true }
  | noColor => { a with noColor := true }
  | noHints => { a with noHints := true }

end Flag

/-! ## What is asked for -/

/-- The version of the program. -/
def version : String := "0.3.0"

/-- How to talk. -/
structure Settings where
  /-- Whether to say how much was read. -/
  verbose : Bool
  /-- Whether a diagnostic is one line instead of a drawn report. -/
  quiet : Bool
  /-- Whether reports have help and notes. -/
  hints : Bool
  /-- Whether there are colours. -/
  colors : Bool
  /-- What draws reports. -/
  draw : Report.Artist

/-- A word in a colour, if there are colours. -/
def Settings.paint (settings : Settings) (color : Nat) (word : String) : String :=
  if settings.colors then "\x1b[" ++ toString color ++ "m" ++ word ++ "\x1b[0m" else word

/-- What to do. -/
inductive Action where
  | run (file : String)
  | check (file : String) (showTree : Bool)
  | eval (source : String)
  | prompt
deriving DecidableEq, Repr

namespace Arguments

/-- How the flags say to talk. Colours are for a terminal only. -/
def settings (a : Arguments) (draw : Report.Artist) (terminal : Bool) : Settings :=
  { verbose := a.verbose
    quiet := a.quiet
    hints := !a.noHints
    colors := !a.noColor && terminal
    draw }

/-- What the arguments ask for. -/
def action (a : Arguments) : Action :=
  match a.command, a.file with
  | some (.run file), _ | none, some file => .run file
  | some (.eval source), _ => .eval source
  | some (.check file showTree), _ => .check file showTree
  | some .repl, _ | none, none => .prompt

end Arguments

end Lox.Command
