/-
`Lox.Machine.Session` -- using a machine from outside.

A machine can be given one piece of work after another; what earlier pieces bound
and changed is there for later ones, also after a failure. Between two pieces of
work the host may define functions and look at the names of the global frame. A
session is a list of such requests, each with the bound it is served with.
-/
import Lox.Machine.Evaluate

set_option autoImplicit false

namespace Lox

/-- How a piece of work came to its end. -/
inductive Verdict (α : Type) where
  | done (result : α)
  | failed (failure : Failure)
  | outOfFuel

namespace Machine

/-! ## Setting up -/

/-- A machine whose global frame is empty. -/
def blank (sink : Sink) : Machine :=
  { forest := Forest.empty.addRoot
    current := globals
    fields := #[]
    hosts := #[]
    nextSerial := 0
    sink }

/-- Binds a global name. -/
def defineGlobal (m : Machine) (name : String) (value : Value) : Machine :=
  { m with forest := m.forest.define globals name value }

/-- Binds a global name to a function of the host. -/
def defineHost (m : Machine) (name : String) (arity : Nat) (body : HostBody) : Machine :=
  { m with hosts := m.hosts.push body }.defineGlobal name (.host ⟨m.hosts.size, name, arity⟩)

/-- A machine as every program finds it: with the function `clock`, which says
how many seconds have passed since the epoch. The reading is the host's, and in a session
it is taken once: the clock stands still while the machine is used. -/
def boot (clock : Float) (sink : Sink) : Machine :=
  (blank sink).defineHost "clock" 0 fun _ => .ok (.number clock)

/-! ## Working -/

/-- A bound on the depth that no run reaches in practice: a loop would have to go
round more often than there are microseconds in thirty years. -/
def ampleFuel : Nat := Nat.pow 10 15

/-- Gives a machine a piece of work, and returns how that ended and the machine
after it. -/
def perform {α : Type} (work : Run α) (m : Machine) : Verdict α × Machine :=
  match work m with
  | .ok result m => (.done result, m)
  | .error (.failed failure) m => (.failed failure, m)
  | .error .outOfFuel m => (.outOfFuel, m)

/-! ## Looking -/

/-- The value of a global name. -/
def global? (m : Machine) (name : String) : Option Value :=
  m.forest.lookup globals name

/-- The global names with their values, in order of the names. -/
def globalBindings (m : Machine) : List (String × Value) :=
  (m.forest.names globals).filterMap fun name => (m.global? name).map fun value => (name, value)

/-- What has been printed since this was last asked, and the machine without
it. -/
def takeOutput (m : Machine) : String × Machine :=
  (m.sink.contents, { m with sink := m.sink.cleared })

/-! ## Sessions -/

/-- What a host can ask of a machine. -/
inductive Request where
  | interpret (stmts : List Stmt)
  | execute (stmt : Stmt)
  | executeIn (frame : FrameId) (stmts : List Stmt)
  | evaluate (expr : Expr)
  | invoke (callee : Callee) (args : List Value)
  /-- Creates a frame that the host may run statements in. -/
  | frameInside (parent : FrameId)
  | define (frame : FrameId) (name : String) (value : Value)
  | defineHost (name : String) (arity : Nat) (body : HostBody)
  | takeOutput

/-- The machine after a request, served with a bound on the depth. -/
def serve (m : Machine) (fuel : Nat) : Request → Machine
  | .interpret stmts => (m.perform (runProgram fuel stmts)).2
  | .execute stmt => (m.perform (Machine.execute fuel stmt)).2
  | .executeIn frame stmts => (m.perform (Machine.executeIn fuel frame stmts)).2
  | .evaluate expr => (m.perform (Machine.evaluate fuel expr)).2
  | .invoke callee args => (m.perform (Machine.invoke fuel callee args)).2
  | .frameInside parent => (m.perform (newFrame parent)).2
  | .define frame name value => (m.perform (Machine.define frame name value)).2
  | .defineHost name arity body => m.defineHost name arity body
  | .takeOutput => m.takeOutput.2

/-- The machine after a session. -/
def serveAll (m : Machine) (session : List (Nat × Request)) : Machine :=
  session.foldl (fun m step => m.serve step.1 step.2) m

end Machine

end Lox
