/-
`Lox.Machine.State` -- the state of a run, and the steps that need no recursion.

A machine holds everything that outlives a statement: the frames, the fields of
the instances, the functions of the host, the output, and which frame is the
current one. All of it only grows, so an identifier never gets a second meaning.

A run either returns something, or fails for a reason of the program's; running
out of the bound on its depth is kept apart from both. In each case the machine
is left as it was when that happened.
-/
import Lox.Failure
import Lox.Machine.Sink
import Lox.Value

set_option autoImplicit false

namespace Lox

/-! ## The machine -/

/-- What a function of the host makes of its arguments: a value, or a message
about what is wrong with them. It is the same function as long as the machine is used: it
has no state of its own, and cannot reach the machine. -/
abbrev HostBody := List Value → Except String Value

/-- The state of a run. -/
structure Machine where
  forest : Forest Value
  current : FrameId
  fields : Array (Table Value)
  hosts : Array HostBody
  nextSerial : Nat
  sink : Sink

/-- Why a run ended early. -/
inductive Machine.Halt where
  /-- The program, the host or the output failed. -/
  | failed (failure : Failure)
  /-- The bound on the depth was too low. -/
  | outOfFuel

/-- A step of a run. What it has done to the machine stays, also when it ends
early. -/
abbrev Run := EStateM Machine.Halt Machine

/-- How a statement came to its end. A returned value is on its way out to the
call of the function around the statement. -/
inductive Completion where
  | normal
  | returned (value : Value)

namespace Machine

/-- The frame of the names that every statement sees. -/
def globals : FrameId := ⟨0⟩

/-! ## Ending early -/

/-- Ends the run with a failure. -/
def fail {α : Type} (failure : Failure) : Run α :=
  throw (.failed failure)

/-- Goes on with a result, or ends the run with the failure there is instead. -/
def liftExcept {α : Type} : Except Failure α → Run α
  | .ok a => pure a
  | .error failure => fail failure

/-! ## Names -/

/-- Binds a name in a frame. -/
def define (frame : FrameId) (name : String) (value : Value) : Run Unit :=
  modify fun m => { m with forest := m.forest.define frame name value }

/-- Binds a name in the current frame. -/
def defineHere (name : String) (value : Value) : Run Unit :=
  modify fun m => { m with forest := m.forest.define m.current name value }

/-- The value of a name, seen from the current frame. -/
def lookupHere (name : String) : Run (Option Value) :=
  return (← get).forest.lookup (← get).current name

/-- The value of the name that a token is. -/
def readVariable (name : Token) : Run Value := do
  match ← lookupHere name.lexeme with
  | some value => return value
  | none => fail (.undefinedVariable name)

/-- Gives the name that a token is a new value. -/
def writeVariable (name : Token) (value : Value) : Run Unit := do
  let m ← get
  match m.forest.owner? m.current name.lexeme with
  | some owner => define owner name.lexeme value
  | none => fail (.undefinedVariable name)

/-! ## Frames -/

/-- Creates an empty frame inside a frame. -/
def newFrame (parent : FrameId) : Run FrameId :=
  modifyGet fun m => (m.forest.next, { m with forest := m.forest.addChild parent })

/-- Runs with another frame as the current one. However that ends, the frame that
was current before is current again. -/
def within {α : Type} (frame : FrameId) (run : Run α) : Run α := fun m =>
  let before := m.current
  match run { m with current := frame } with
  | .ok a m => .ok a { m with current := before }
  | .error halt m => .error halt { m with current := before }

/-! ## Functions and instances -/

/-- A number that has not been given out before. -/
def newSerial : Run Nat :=
  modifyGet fun m => (m.nextSerial, { m with nextSerial := m.nextSerial + 1 })

/-- A function as a value that equals no other. -/
def newClosure (fn : Closure) : Run Value :=
  return .function (← newSerial) fn

/-- Creates an instance without fields. -/
def newInstance : Run InstanceId :=
  modifyGet fun m => (⟨m.fields.size⟩, { m with fields := m.fields.push .empty })

/-- A method with its receiver: the same function, closed over a new frame in
which `this` is the receiver. -/
def bind (method : Closure) (receiver : Value) : Run Closure := do
  let frame ← newFrame method.frame
  define frame "this" receiver
  return { method with frame }

/-- The value of a property of an instance. A field hides a method of its name,
and a method comes with its receiver. -/
def readProperty (cls : Class) (id : InstanceId) (name : Token) : Run Value := do
  match ((← get).fields[id.index]?).bind fun fields => fields.find? name.lexeme with
  | some value => return value
  | none =>
    match cls.findMethod? name.lexeme with
    | some method => newClosure (← bind method (.instanceOf cls id))
    | none => fail (.undefinedProperty name)

/-- Gives a field of an instance a value, whether or not it had one. -/
def writeField (id : InstanceId) (name : String) (value : Value) : Run Unit :=
  modify fun m =>
    { m with fields := m.fields.modify id.index fun fields => fields.insert name value }

/-- The method that `super` and a name stand for, with its receiver. The class to
look in and the receiver are found by name, like variables. -/
def readSuper (keyword method : Token) : Run Value := do
  let .some (.classRef parent) ← lookupHere "super" | fail (.undefinedVariable keyword)
  let .some (.instanceOf cls id) ← lookupHere "this"
    | fail (.undefinedVariable (.plain .kwThis "this" keyword.span))
  match parent.findMethod? method.lexeme with
  | some found => newClosure (← bind found (.instanceOf cls id))
  | none => fail (.undefinedProperty method)

/-- Calls a function of the host. One that was never defined returns nil. -/
def callHost (fn : HostFunction) (args : List Value) : Run Value := do
  match (← get).hosts[fn.index]? with
  | some body =>
    match body args with
    | .ok value => return value
    | .error message => fail (.host fn.name message)
  -- no value refers to such a function, since each was defined with its body
  | none => return .nil

/-! ## Output -/

/-- Prints a line. What fits is stored even if not all of it does. -/
def printLine (text : String) : Run Unit := fun m =>
  let line := text ++ "\n"
  let fits := m.sink.fits line.utf8ByteSize
  let m := { m with sink := m.sink.write line }
  if fits then .ok () m else .error (.failed (.output Sink.fullMessage)) m

/-- Hands on all that was printed. -/
def flush : Run Unit := do
  if (← get).sink.flushFails then fail (.output Sink.flushMessage)

end Machine

end Lox
