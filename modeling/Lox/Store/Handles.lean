/-
`Lox.Store.Handles` -- environments as a host holds them.

A host does not refer to frames by identifiers but through handles. A handle is
one of a row, and several may stand for the same frame: a copy of a handle shares
the frame with it. What can be done with an environment is a request that names
its handle, so that a whole use of environments is a list of requests.
-/
import Lox.Failure
import Lox.Store.Forest

set_option autoImplicit false

namespace Lox

/-- A forest and the handles into it: the frame that each stands for, oldest
first. -/
structure Handles (α : Type) where
  forest : Forest α
  frames : Array FrameId

namespace Handles

variable {α : Type}

/-- What can be asked of environments. Names that come from a program are tokens:
a failure points at them. -/
inductive Request (α : Type) where
  /-- A new environment with nothing around it. -/
  | new
  /-- A new environment inside that of a handle. -/
  | child (handle : Nat)
  /-- A further handle for the same environment. -/
  | clone (handle : Nat)
  | define (handle : Nat) (name : String) (value : α)
  | assign (handle : Nat) (name : Token) (value : α)
  | get (handle : Nat) (name : Token)
  | lookup (handle : Nat) (name : String)
  | names (handle : Nat)
  /-- Whether two handles stand for one environment. -/
  | same (handle other : Nat)

/-- What a request is answered with. -/
inductive Answer (α : Type) where
  | handle (number : Nat)
  | done
  | value (value : α)
  | found (value : Option α)
  | names (names : List String)
  | same (same : Bool)
  | failed (failure : Failure)

/-- No handles, and nothing that they could stand for. -/
def empty : Handles α := ⟨.empty, #[]⟩

/-- A further handle, for a frame of a forest. -/
def add (s : Handles α) (forest : Forest α) (id : FrameId) : Option (Answer α) × Handles α :=
  (some (.handle s.frames.size), ⟨forest, s.frames.push id⟩)

/-- Answers a request for the frame of a handle; without such a handle there is no
answer and nothing happens. -/
def withFrame (s : Handles α) (handle : Nat) (answer : FrameId → Option (Answer α) × Handles α) :
    Option (Answer α) × Handles α :=
  match s.frames[handle]? with
  | some id => answer id
  | none => (none, s)

/-- The answer to a request, and the handles afterwards. -/
def serve (s : Handles α) : Request α → Option (Answer α) × Handles α
  | .new => s.add s.forest.addRoot s.forest.next
  | .child handle => s.withFrame handle fun id => s.add (s.forest.addChild id) s.forest.next
  | .clone handle => s.withFrame handle fun id => s.add s.forest id
  | .define handle name value => s.withFrame handle fun id =>
    (some .done, { s with forest := s.forest.define id name value })
  | .assign handle name value => s.withFrame handle fun id =>
    match s.forest.assign? id name.lexeme value with
    | some forest => (some .done, { s with forest })
    | none => (some (.failed (.undefinedVariable name)), s)
  | .get handle name => s.withFrame handle fun id =>
    match s.forest.lookup id name.lexeme with
    | some value => (some (.value value), s)
    | none => (some (.failed (.undefinedVariable name)), s)
  | .lookup handle name => s.withFrame handle fun id =>
    (some (.found (s.forest.lookup id name)), s)
  | .names handle => s.withFrame handle fun id => (some (.names (s.forest.names id)), s)
  | .same handle other => s.withFrame handle fun id =>
    s.withFrame other fun id' => (some (.same (id == id')), s)

/-- The answers to requests that are made one after another, and the handles after
them. -/
def serveAll (s : Handles α) : List (Request α) → List (Option (Answer α)) × Handles α
  | [] => ([], s)
  | request :: rest =>
    let (answer, after) := s.serve request
    let (answers, last) := after.serveAll rest
    (answer :: answers, last)

end Handles

end Lox
