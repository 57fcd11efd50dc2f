/-
`Lox.Proofs.Machine.Story` -- runs that are told.

What is meant by the activation of a method, or by the execution of a declaration, is
not to be seen in a machine: it is part of how a run went. So a run is told as it
goes. Before each piece of work, and after each step of the machine, it is said what
happens (`Event`); the listener keeps an account of it, of a type of its own, and each
event is noted with the machine and the account at that moment.

Nothing that is told has an effect on the run. With everything that was told left
out, it is the run itself (`Retells`), whatever account is kept.
-/
import Lox.Proofs.Machine.Followed
import Lox.Proofs.Machine.Run

set_option autoImplicit false

namespace Lox.Machine

/-! ## Stories -/

/-- A machine, and the account of how it came about. -/
structure Scene (G : Type) where
  machine : Machine
  account : G

/-- What happens, and the scene at that moment. -/
structure Moment (G : Type) extends Scene G where
  event : Event

/-- A run so far: its last scene, and all its moments, the latest first. -/
structure Story (G : Type) extends Scene G where
  moments : List (Moment G)

/-- A step of a run that is told. -/
abbrev Telling (G : Type) := EStateM Halt (Story G)

section Telling

variable {G : Type} (note : Event → Machine → G → G)

/-- The story with one more event, of which an account is kept. -/
def Story.with (w : Story G) (event : Event) : Story G :=
  let scene := ⟨w.machine, note event w.machine w.account⟩
  ⟨scene, ⟨scene, event⟩ :: w.moments⟩

/-- Tells what happens. -/
def tell (event : Event) : Telling G Unit :=
  modify fun w => w.with note event

/-- The story when the machine has made a step. -/
def Story.step (w : Story G) (m : Machine) : Story G :=
  Story.with note { w with machine := m } .stepped

/-- A step of the machine. -/
def tacit {α : Type} (run : Run α) : Telling G α := fun w =>
  match run w.machine with
  | .ok a m => .ok a (w.step note m)
  | .error halt m => .error halt (w.step note m)

/-! ## Runs that are told -/

namespace Tell

omit note in
/-- Runs with another frame as the current one, and sets the old one back. -/
def within {α : Type} (frame : FrameId) (run : Telling G α) : Telling G α := fun w =>
  let before := w.machine.current
  match run { w with machine := { w.machine with current := frame } } with
  | .ok a w => .ok a { w with machine := { w.machine with current := before } }
  | .error halt w => .error halt { w with machine := { w.machine with current := before } }

/-- Tells what happens, and goes on. -/
def first {α : Type} (event : Event) (run : Telling G α) : Telling G α := do
  tell note event
  run

/-- The value of an expression. -/
def evaluate (fuel : Nat) (expr : Expr) : Telling G Value :=
  Followed.evaluate (fun w => w.machine) (tacit note) within (first note) (fun _ run => run) fuel
    expr

/-- The values of some expressions, in order. -/
def evaluateEach (fuel : Nat) (exprs : List Expr) : Telling G (List Value) :=
  Followed.evaluateEach (fun w => w.machine) (tacit note) within (first note) (fun _ run => run)
    fuel exprs

/-- The result of calling a value. -/
def call (fuel : Nat) (callee : Value) (paren : Token) (args : List Value) : Telling G Value :=
  Followed.call (fun w => w.machine) (tacit note) within (first note) (fun _ run => run) fuel
    callee paren args

/-- The result of calling with the right number of arguments. -/
def invoke (fuel : Nat) (callee : Callee) (args : List Value) : Telling G Value :=
  Followed.invoke (fun w => w.machine) (tacit note) within (first note) (fun _ run => run) fuel
    callee args

/-- Runs a statement. -/
def execute (fuel : Nat) (stmt : Stmt) : Telling G Completion :=
  Followed.execute (fun w => w.machine) (tacit note) within (first note) (fun _ run => run) fuel
    stmt

/-- Runs statements in order, up to one that returns. -/
def executeEach (fuel : Nat) (stmts : List Stmt) : Telling G Completion :=
  Followed.executeEach (fun w => w.machine) (tacit note) within (first note) (fun _ run => run)
    fuel stmts

/-- Runs a statement as long as a condition holds, or until it returns. -/
def repeatWhile (fuel : Nat) (condition : Expr) (body : Stmt) : Telling G Completion :=
  Followed.repeatWhile (fun w => w.machine) (tacit note) within (first note) (fun _ run => run)
    fuel condition body

/-- Runs a program: its statements in order, up to the first failure. -/
def runProgram (fuel : Nat) (stmts : List Stmt) : Telling G Unit :=
  Followed.runProgram (fun w => w.machine) (tacit note) within (first note) (fun _ run => run)
    fuel stmts

end Tell

/-! ## Telling changes nothing -/

/-- The story of a run, however it ended. -/
def storyOf {α : Type} : EStateM.Result Halt (Story G) α → Story G
  | .ok _ w | .error _ w => w

/-- The first run is the second one, told. -/
abbrev Retells {α : Type} (x : Telling G α) (y : Run α) : Prop :=
  Erases (fun w : Story G => w.machine) x y

omit note in

/-- A step that is told is the step. -/
protected theorem Retells.tacit {α : Type} {note : Event → Machine → G → G} (y : Run α) :
    Retells (tacit note y) y := by
  intro w
  unfold Machine.tacit
  cases y w.machine <;> rfl

omit note in

/-- Entering a frame is entering it in the machine of the story. -/
protected theorem Retells.within {α : Type} {x : Telling G α} {y : Run α} (frame : FrameId)
    (hx : Retells x y) : Retells (Tell.within frame x) (Machine.within frame y) := by
  intro w
  have hinner := hx { w with machine := { w.machine with current := frame } }
  unfold Tell.within Machine.within
  cases hrun : x { w with machine := { w.machine with current := frame } } with
  | ok a w' =>
    rw [hrun] at hinner
    rw [← hinner]
    rfl
  | error halt w' =>
    rw [hrun] at hinner
    rw [← hinner]
    rfl

/-- To tell something is no step of the run. -/
theorem tell_transparent : Transparent (fun w : Story G => w.machine) (tacit note) Tell.within
    (Tell.first note) (fun _ run => run) where
  step := Retells.tacit
  within := Retells.within
  tell event hx w := hx (w.with note event)
  sight _ hx := hx

/-! ## Sessions that are told -/

/-- The story after a piece of work. -/
def Story.perform {α : Type} (w : Story G) (work : Telling G α) : Story G :=
  storyOf (work w)

/-- The story after a request. What the host does itself is a step. -/
def Story.serve (w : Story G) (fuel : Nat) : Request → Story G
  | .interpret stmts => w.perform (Tell.runProgram note fuel stmts)
  | .execute stmt => w.perform (Tell.execute note fuel stmt)
  | .executeIn frame stmts => w.perform (Tell.within frame (Tell.executeEach note fuel stmts))
  | .evaluate expr => w.perform (Tell.evaluate note fuel expr)
  | .invoke callee args => w.perform (Tell.invoke note fuel callee args)
  | .frameInside parent => w.perform (do
      tell note (.enters parent)
      tacit note (newFrame parent))
  | .define frame name value => w.perform (tacit note (define frame name value))
  | .defineHost name arity body => w.step note (w.machine.defineHost name arity body)
  | .takeOutput => w.step note w.machine.takeOutput.2

/-- The story after a session. -/
def Story.serveAll (w : Story G) (session : List (Nat × Request)) : Story G :=
  session.foldl (fun w step => w.serve note step.1 step.2) w

/-- A piece of work leaves the machine that it leaves without being told. -/
theorem Story.machine_perform {α : Type} {x : Telling G α} {y : Run α} (h : Retells x y)
    (w : Story G) : (w.perform x).machine = (w.machine.perform y).2 := by
  have hrun := h w
  unfold Story.perform
  cases hx : x w with
  | ok a w' =>
    rw [hx] at hrun
    rw [perform_snd_of_ok hrun.symm]
    rfl
  | error halt w' =>
    rw [hx] at hrun
    rw [perform_snd_of_error hrun.symm]
    rfl

/-- The story of a request ends with the machine after it. -/
theorem Story.machine_serve (w : Story G) (fuel : Nat) (request : Request) :
    (w.serve note fuel request).machine = w.machine.serve fuel request := by
  have hall := (tell_transparent note).erasesAt fuel
  cases request with
  | interpret stmts => exact machine_perform ((tell_transparent note).runProgram_erases fuel stmts) w
  | execute stmt => exact machine_perform (hall.execute stmt) w
  | executeIn frame stmts => exact machine_perform (Retells.within frame (hall.executeEach stmts)) w
  | evaluate expr => exact machine_perform (hall.evaluate expr) w
  | invoke callee args => exact machine_perform (hall.invoke callee args) w
  | frameInside parent => exact machine_perform ((tell_transparent note).tell _ (Retells.tacit _)) w
  | define frame name value => exact machine_perform (Retells.tacit _) w
  | defineHost name arity body => rfl
  | takeOutput => rfl

/-- The story of a session ends with the machine after it. -/
theorem Story.machine_serveAll (w : Story G) (session : List (Nat × Request)) :
    (w.serveAll note session).machine = w.machine.serveAll session := by
  induction session generalizing w with
  | nil => rfl
  | cons step rest ih =>
    show ((w.serve note step.1 step.2).serveAll note rest).machine = _
    rw [ih, machine_serve]
    rfl

end Telling

end Lox.Machine
