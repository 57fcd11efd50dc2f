/-
`Lox.Proofs.Method.Activation` -- the activations of methods that code is run in.

A method is run for a receiver. While it runs, and also later, in the functions that
it leaves behind, the code stands in the activation of that method: it belongs to one
execution of the declaration of a class, and to one receiver. The declaration of a
class may itself stand in a method, so the activations around a place are a list.

A machine knows nothing of activations. Here it is said what they are, as an account
that is kept of a run (`Surroundings.note`): a block has those of the code around it,
the body of a function those of the frame that the function was made in, and a method
that is given a receiver starts a new activation inside of those that the declaration
of its class was executed in.
-/
import Lox.Proofs.Machine.Story
import Lox.Proofs.Method.Enclosing

set_option autoImplicit false

namespace Lox

/-! ## Where a method comes from -/

namespace Class

variable {cls : Class} {name : String} {fn : Closure}

/-- The declaration in which a class finds a method of a name. -/
def definer? (cls : Class) (name : String) : Option ClassBody :=
  cls.lineage.find? fun body => body.methods.has name

/-- A method that is found is one of the nearest declaration that has one of its name,
and behind that are the declarations it inherits from. -/
theorem definer?_of_findMethod? (h : cls.findMethod? name = some fn) :
    ∃ own rest, cls.definer? name = some own ∧ own :: rest <:+ cls.lineage ∧
      own.methods.find? name = some fn := by
  unfold findMethod? at h
  unfold definer?
  generalize cls.lineage = lineage at h ⊢
  induction lineage with
  | nil => cases h
  | cons body rest ih =>
    rw [List.findSome?_cons] at h
    cases hbody : body.methods.find? name with
    | some found =>
      rw [hbody] at h
      cases h
      refine ⟨body, rest, List.find?_cons_of_pos ?_, List.suffix_refl _, hbody⟩
      rw [Table.has, hbody, Option.isSome_some]
    | none =>
      rw [hbody] at h
      obtain ⟨own, rest', hown, hsuffix, hfind⟩ := ih h
      refine ⟨own, rest', ?_, hsuffix.trans (List.suffix_cons body rest), hfind⟩
      rw [List.find?_cons_of_neg (by simp [Table.has, hbody]), hown]

end Class

/-! ## Activations -/

/-- The run of a method: what the class contributes that the method is of, how that
class came about, and the receiver. -/
structure Activation where
  own : ClassBody
  decl : ClassDecl
  parent : Option Class
  cls : Class
  id : InstanceId

/-- The receiver as a value. -/
def Activation.receiver (a : Activation) : Value :=
  .instanceOf a.cls a.id

/-- How the declaration of a class was executed: with which superclass, and inside of
which activations. -/
structure Execution where
  decl : ClassDecl
  parent : Option Class
  outer : List Activation

/-- The declarations that a class inherits from which was declared so. -/
def Execution.ancestors (e : Execution) : List ClassBody :=
  e.parent.elim [] Class.lineage

/-- For each frame the activations that code in it is run in, innermost first, and for
each class by its number how it came about. -/
structure Surroundings where
  around : FrameId → List Activation
  execution? : Nat → Option Execution

namespace Surroundings

/-- In a machine that has not done anything there is no activation. -/
def start : Surroundings :=
  ⟨fun _ => [], fun _ => none⟩

/-- A frame is created in which code will be run inside of these activations. -/
def seat (g : Surroundings) (frame : FrameId) (activations : List Activation) :
    Surroundings :=
  { g with around := fun key => if key = frame then activations else g.around key }

/-- A declaration is executed, and the class gets a number. -/
def declare (g : Surroundings) (serial : Nat) (execution : Execution) : Surroundings :=
  { g with execution? := fun key => if key = serial then some execution else g.execution? key }

/-- The activations around the body of a method that is found in a class by its name
and is given a receiver: a new one, inside of those around the declaration that the
method is from. -/
def activate (g : Surroundings) (found : Class) (name : String) (cls : Class)
    (id : InstanceId) : List Activation :=
  match found.definer? name with
  | none => []
  | some own =>
    match g.execution? own.serial with
    | none => []
    | some e => ⟨own, e.decl, e.parent, cls, id⟩ :: e.outer

/-- What an event does to the activations. The frame that is about to be created, if
one is, is the next one. -/
def note (event : Machine.Event) (m : Machine) (g : Surroundings) : Surroundings :=
  match event with
  | .enters parent => g.seat m.forest.next (g.around parent)
  | .selects cls id name => g.seat m.forest.next (g.activate cls name cls id)
  | .defers method =>
    match m.forest.lookup m.current "super", m.forest.lookup m.current "this" with
    | some (.classRef parent), some (.instanceOf cls id) =>
      g.seat m.forest.next (g.activate parent method.lexeme cls id)
    | _, _ => g
  | .declares decl parent => g.declare m.nextSerial ⟨decl, parent, g.around m.current⟩
  | .evaluates _ | .executes _ | .calls _ _ | .stepped => g

variable {g : Surroundings} {frame key : FrameId} {activations : List Activation}

@[simp] theorem around_seat_self : (g.seat frame activations).around frame = activations :=
  if_pos rfl

/-- Seating a frame leaves the others where they are. -/
theorem around_seat_of_ne (h : key ≠ frame) :
    (g.seat frame activations).around key = g.around key :=
  if_neg h

@[simp] theorem execution?_declare_self {serial : Nat} {e : Execution} :
    (g.declare serial e).execution? serial = some e :=
  if_pos rfl

/-- Declaring a class leaves the others as they were declared. -/
theorem execution?_declare_of_ne {serial serial' : Nat} {e : Execution} (h : serial' ≠ serial) :
    (g.declare serial e).execution? serial' = g.execution? serial' :=
  if_neg h

/-- What an activation starts with is known of the declaration that the method is
from. -/
theorem activate_eq {found cls : Class} {name : String} {id : InstanceId} {own : ClassBody}
    {e : Execution} (hown : found.definer? name = some own)
    (he : g.execution? own.serial = some e) :
    g.activate found name cls id = ⟨own, e.decl, e.parent, cls, id⟩ :: e.outer := by
  simp only [activate, hown, he]

/-! ### Looking for a method in a superclass -/

section Defers

variable {m : Machine} {method : Token}

/-- When `super` is evaluated, the frame for the receiver is inside of an activation of the
method that the superclass has. -/
theorem note_defers_of_some {parent cls : Class} {id : InstanceId}
    (hparent : m.forest.lookup m.current "super" = some (.classRef parent))
    (hthis : m.forest.lookup m.current "this" = some (.instanceOf cls id)) :
    note (.defers method) m g
      = g.seat m.forest.next (g.activate parent method.lexeme cls id) := by
  simp only [note, hparent, hthis]

/-- Where no superclass or no receiver is found, nothing is going to be activated. -/
theorem note_defers_of_not
    (h : ¬ ∃ parent cls id, m.forest.lookup m.current "super" = some (.classRef parent) ∧
      m.forest.lookup m.current "this" = some (.instanceOf cls id)) :
    note (.defers method) m g = g := by
  simp only [note]
  split
  · rename_i hparent hthis
    exact absurd ⟨_, _, _, hparent, hthis⟩ h
  · rfl

end Defers

end Surroundings

end Lox
