/-
`Lox.Command.Desk` -- carrying out a piece of source text.

A command has a machine and two places to write to: one for what the program
prints and for answers, one for messages about the program, so that the two
never mix. A command that cannot do its work ends with an error, which fixes the
exit code.
-/
import Lox.Command.Invocation
import Lox.Grammar.Program
import Lox.Machine.Session
import Lox.Tree.Render

set_option autoImplicit false

namespace Lox.Command

/-! ## Errors -/

/-- Why bytes cannot be had as text. -/
inductive ReadProblem where
  | missing
  | isDirectory
  | notText
  | other (reason : String)
deriving DecidableEq, Repr

/-- The reason in words. -/
def ReadProblem.message : ReadProblem → String
  | missing => "No such file or directory (os error 2)"
  | isDirectory => "Is a directory (os error 21)"
  | notText => "stream did not contain valid UTF-8"
  | other reason => reason

/-- Why a command did not do its work. -/
inductive CommandError where
  | unreadableFile (name : String) (problem : ReadProblem)
  | unreadableLine (problem : ReadProblem)
  /-- The program has so many diagnostics; they have been written. -/
  | illFormed (count : Nat)
  /-- The run failed; the failure has been written. -/
  | runFailed
  /-- The bound on the depth of the run was too low. -/
  | outOfFuel
deriving DecidableEq, Repr

namespace CommandError

/-- The exit code: 65 for a bad program, 70 for a failed run, 74 for what cannot
be read. -/
def exitCode : CommandError → Nat
  | unreadableFile _ _ | unreadableLine _ => 74
  | illFormed _ => 65
  | runFailed | outOfFuel => 70

/-- The last message of a command that ends so. A failed run has no further
one. -/
def message? : CommandError → Option String
  | unreadableFile name problem =>
    some ("cannot read file '" ++ name ++ "': " ++ problem.message)
  | unreadableLine problem => some ("line editor failed: " ++ problem.message)
  | illFormed count =>
    some ("could not run due to " ++ toString count ++ " syntax error(s)")
  | runFailed => none
  | outOfFuel => some "the program runs too deep"

end CommandError

/-! ## The desk -/

/-- A machine, what has been answered, and what has been said about the program. -/
structure Desk where
  machine : Machine
  out : String
  err : String

/-- A step of a command. What it has written stays, also when it ends in an
error. -/
abbrev Job := EStateM CommandError Desk

/-- A desk with a new machine. -/
def Desk.start (clock : Float) : Desk :=
  ⟨.boot clock .unlimited, "", ""⟩

/-- Writes a line of answers. -/
def sayLine (text : String) : Job Unit :=
  modify fun d => { d with out := d.out ++ text ++ "\n" }

/-- Writes a line of messages. -/
def noteLine (text : String) : Job Unit :=
  modify fun d => { d with err := d.err ++ text ++ "\n" }

/-- Gives the machine a piece of work, and writes what the program printed. -/
def work {α : Type} (run : Run α) : Job (Verdict α) := fun d =>
  let (verdict, machine) := d.machine.perform run
  let (text, machine) := machine.takeOutput
  .ok verdict { d with machine, out := d.out ++ text }

/-! ## Sources -/

/-- A piece of source text, and what reports call it. -/
structure Source where
  name : String
  text : String

/-- The sketch of a diagnostic over a source. -/
def sketch (settings : Settings) (source : Source) (d : Diagnostic) : Report.Sketch :=
  .ofDiagnostic source.text source.name settings.hints settings.colors d

/-- Writes a diagnostic as a report, and if that cannot be written, as this line. -/
def drawOr (settings : Settings) (source : Source) (d : Diagnostic) (line : String) : Job Unit :=
  match settings.draw (sketch settings source d) with
  | some report => modify fun desk => { desk with err := desk.err ++ report }
  | none => noteLine line

/-- Writes a diagnostic, drawn or as one line. -/
def showDiagnostic (settings : Settings) (source : Source) (d : Diagnostic) : Job Unit :=
  if settings.quiet then noteLine d.text else drawOr settings source d d.text

/-- Writes a failure: drawn if it points into a program and reports are drawn at
all, and otherwise as its message and line. -/
def showFailure (settings : Settings) (source : Source) (f : Failure) : Job Unit :=
  if settings.quiet || f.token?.isNone then noteLine f.report
  else drawOr settings source f.diagnostic f.report

/-- The program that a source is. If there is anything wrong with it, that is
written, and the command ends. -/
def readProgram (settings : Settings) (source : Source) : Job (List Stmt) := do
  let program := Program.ofSource source.text
  if program.diagnostics.isEmpty then
    if settings.verbose then
      noteLine (settings.paint 34 "info:" ++ " Parsed " ++ toString program.stmts.length
        ++ " statements")
    return program.stmts
  else
    program.diagnostics.forM (showDiagnostic settings source)
    throw (.illFormed program.diagnostics.length)

/-- What follows from how a piece of work ended. -/
def conclude {α : Type} (settings : Settings) (source : Source) (verdict : Verdict α)
    (onDone : α → Job Unit) : Job Unit := do
  match verdict with
  | .done a => onDone a
  | .failed failure =>
    showFailure settings source failure
    throw .runFailed
  | .outOfFuel => throw .outOfFuel

/-- The expression that a program consists of, if it is a single one. -/
def loneExpression? : List Stmt → Option Expr
  | [.expression expr] => some expr
  | _ => none

/-- Runs a source. With `echo`, a program that is a single expression has its
value written. -/
def runSource (fuel : Nat) (settings : Settings) (echo : Bool) (source : Source) :
    Job Unit := do
  let stmts ← readProgram settings source
  match if echo then loneExpression? stmts else none with
  | some expr =>
    conclude settings source (← work (Machine.evaluate fuel expr)) fun value =>
      sayLine value.display
  | none =>
    conclude settings source (← work (Machine.runProgram fuel stmts)) fun _ => pure ()

/-- Checks a source without running it, and writes its tree or that it is
good. -/
def checkSource (settings : Settings) (showTree : Bool) (source : Source) : Job Unit := do
  let stmts ← readProgram settings source
  if showTree then modify fun d => { d with out := d.out ++ Stmt.renderProgram stmts }
  else if !settings.quiet then noteLine (settings.paint 32 "OK - No errors found")

end Lox.Command
