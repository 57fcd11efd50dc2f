/-
`Lox.Proofs.Scope.Watch` -- runs that are watched.

To say something about every variable that a run reads or assigns to, a run is
watched: each time a variable is about to be looked up, its token and the machine
at that moment are noted (`Sighting`). Nothing else is different, and a run that is
watched ends in the same way and with the same machine as one that is not
(`Erases`).
-/
import Lox.Proofs.Machine.Followed
import Lox.Proofs.Machine.Run

set_option autoImplicit false

namespace Lox.Machine

/-! ## Watching -/

/-- A variable that is about to be looked up, and the machine at that moment. -/
structure Sighting where
  name : Token
  machine : Machine

/-- A machine with what has been seen, the latest first. -/
structure Watched where
  machine : Machine
  seen : List Sighting

/-- A step of a run that is watched. -/
abbrev WatchedRun := EStateM Halt Watched

/-- Runs something in which no variable is looked up. -/
def unseen {α : Type} (run : Run α) : WatchedRun α := fun w =>
  match run w.machine with
  | .ok a m => .ok a { w with machine := m }
  | .error halt m => .error halt { w with machine := m }

/-- Notes that a variable is about to be looked up. -/
def sight (name : Token) : WatchedRun Unit :=
  modify fun w => { w with seen := ⟨name, w.machine⟩ :: w.seen }

namespace Watch

/-- Notes a variable, and goes on. -/
def sight {α : Type} (name : Token) (run : WatchedRun α) : WatchedRun α := do
  Machine.sight name
  run

/-- Runs with another frame as the current one, and sets the old one back. -/
def within {α : Type} (frame : FrameId) (run : WatchedRun α) : WatchedRun α := fun w =>
  let before := w.machine.current
  match run { w with machine := { w.machine with current := frame } } with
  | .ok a w => .ok a { w with machine := { w.machine with current := before } }
  | .error halt w => .error halt { w with machine := { w.machine with current := before } }

/-- The value of an expression. -/
def evaluate (fuel : Nat) (expr : Expr) : WatchedRun Value :=
  Followed.evaluate Watched.machine unseen within (fun _ run => run) sight fuel expr

/-- The values of some expressions, in order. -/
def evaluateEach (fuel : Nat) (exprs : List Expr) : WatchedRun (List Value) :=
  Followed.evaluateEach Watched.machine unseen within (fun _ run => run) sight fuel exprs

/-- The result of calling a value. -/
def call (fuel : Nat) (callee : Value) (paren : Token) (args : List Value) : WatchedRun Value :=
  Followed.call Watched.machine unseen within (fun _ run => run) sight fuel callee paren args

/-- The result of calling with the right number of arguments. -/
def invoke (fuel : Nat) (callee : Callee) (args : List Value) : WatchedRun Value :=
  Followed.invoke Watched.machine unseen within (fun _ run => run) sight fuel callee args

/-- Runs a statement. -/
def execute (fuel : Nat) (stmt : Stmt) : WatchedRun Completion :=
  Followed.execute Watched.machine unseen within (fun _ run => run) sight fuel stmt

/-- Runs statements in order, up to one that returns. -/
def executeEach (fuel : Nat) (stmts : List Stmt) : WatchedRun Completion :=
  Followed.executeEach Watched.machine unseen within (fun _ run => run) sight fuel stmts

/-- Runs a statement as long as a condition holds, or until it returns. -/
def repeatWhile (fuel : Nat) (condition : Expr) (body : Stmt) : WatchedRun Completion :=
  Followed.repeatWhile Watched.machine unseen within (fun _ run => run) sight fuel condition body

/-- Runs a program: its statements in order, up to the first failure. -/
def runProgram (fuel : Nat) (stmts : List Stmt) : WatchedRun Unit :=
  Followed.runProgram Watched.machine unseen within (fun _ run => run) sight fuel stmts

end Watch

/-! ## Watching changes nothing -/

/-- How a run ended, and with which machine, without what was seen. -/
def unwatched {α : Type} : EStateM.Result Halt Watched α → EStateM.Result Halt Machine α :=
  erased Watched.machine

/-- What was seen in a run, however it ended. -/
def sightings {α : Type} : EStateM.Result Halt Watched α → List Sighting
  | .ok _ w | .error _ w => w.seen

/-- Noting a variable is no step of the run. -/
theorem watch_transparent :
    Transparent Watched.machine unseen Watch.within (fun _ run => run) Watch.sight where
  step y w := by
    unfold unseen
    cases y w.machine <;> rfl
  within := by
    intro α x y frame hx w
    have hinner := hx { w with machine := { w.machine with current := frame } }
    unfold Watch.within Machine.within
    cases hrun : x { w with machine := { w.machine with current := frame } } with
    | ok a w' =>
      rw [hrun] at hinner
      rw [← hinner]
      rfl
    | error halt w' =>
      rw [hrun] at hinner
      rw [← hinner]
      rfl
  tell _ hx := hx
  sight name hx w := hx { w with seen := ⟨name, w.machine⟩ :: w.seen }

end Lox.Machine
