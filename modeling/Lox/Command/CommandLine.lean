/-
`Lox.Command.CommandLine` -- the whole command, from arguments to exit code.

What the command needs from the outside is handed in: the arguments, what files
hold, the standard input, and the time. What it does is the outcome: two texts
and an exit code. Reading arguments and typed lines and drawing reports are the
tools of the command, and it works in the same way whatever they are.
-/
import Lox.Command.Prompt

set_option autoImplicit false

namespace Lox.Command

/-! ## The outside -/

/-- What is found under the name of a file. -/
inductive FileContent where
  | bytes (content : ByteArray)
  | unreadable (problem : ReadProblem)

/-- What a command can see. -/
structure World where
  file : String → FileContent
  input : ByteArray
  clock : Float

/-- What a command leaves behind. -/
structure Outcome where
  code : Nat
  out : String
  err : String
deriving DecidableEq, Repr

/-- What a command works with. -/
structure Tools where
  /-- What is found among the arguments of a command line. If nothing can be done with them,
  the program ends, and this is what it leaves behind. -/
  parse : List String → Except Outcome Arguments
  /-- What draws reports. -/
  draw : Report.Artist
  /-- What comes of asking for lines until the end of an input. -/
  lines : ByteArray → List Typed
  /-- Whether messages go to a terminal. -/
  terminal : Bool

/-! ## Performing -/

/-- The text of a file. -/
def FileContent.text? : FileContent → Except ReadProblem String
  | bytes content =>
    match String.fromUTF8? content with
    | some text => .ok text
    | none => .error .notText
  | unreadable problem => .error problem

/-- The source in a file; if it cannot be read, the command ends. -/
def readSource (world : World) (name : String) : Job Source :=
  match (world.file name).text? with
  | .ok text => return ⟨name, text⟩
  | .error problem => throw (.unreadableFile name problem)

/-- Does what is asked for. `typed` is what is typed at the prompt. -/
def Action.perform (fuel : Nat) (world : World) (typed : List Typed) (settings : Settings) :
    Action → Job Unit
  | run file => do runSource fuel settings false (← readSource world file)
  | check file showTree => do checkSource settings showTree (← readSource world file)
  | eval source => runSource fuel settings true ⟨"<eval>", source⟩
  | prompt => Command.prompt fuel settings typed

/-- The outcome of a job. An error has the last word, unless it has been written about. -/
def outcomeOf (settings : Settings) : EStateM.Result CommandError Desk Unit → Outcome
  | .ok _ d => ⟨0, d.out, d.err⟩
  | .error e d =>
    let last := match e.message? with
      | some message => settings.paint 31 "error:" ++ " " ++ message ++ "\n"
      | none => ""
    ⟨e.exitCode, d.out, d.err ++ last⟩

/-- The outcome of a command line. -/
def performWith (tools : Tools) (fuel : Nat) (world : World) (args : List String) : Outcome :=
  match tools.parse args with
  | .ok given =>
    let settings := given.settings tools.draw tools.terminal
    outcomeOf settings <|
      given.action.perform fuel world (tools.lines world.input) settings (Desk.start world.clock)
  | .error outcome => outcome

end Lox.Command
