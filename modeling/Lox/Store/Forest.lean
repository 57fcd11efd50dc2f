/-
`Lox.Store.Forest` -- scopes that share their surroundings.

A frame binds names, and stands inside other frames. Frames are referred to by
identifiers, so that a closure and the code around it can share one and each see
what the other does. A frame is created inside another, and where it stands
never changes: it keeps the list of the frames around it, nearest first. So the
frames that a look-up visits are known beforehand, and looking up and assigning
visit the same ones in the same order.
-/
import Lox.Store.Table

set_option autoImplicit false

namespace Lox

/-- Refers to a frame. -/
structure FrameId where
  index : Nat
deriving DecidableEq, Repr, Inhabited

/-- The names bound in one scope, and the frames around it, nearest first. -/
structure Frame (α : Type) where
  bindings : Table α
  outer : List FrameId

/-- All frames that have been created. -/
structure Forest (α : Type) where
  frames : Array (Frame α)

namespace Forest

variable {α : Type}

/-! ## Creating frames -/

/-- The forest without frames. -/
def empty : Forest α := ⟨#[]⟩

/-- The identifier that the next frame will have. -/
def next (f : Forest α) : FrameId := ⟨f.frames.size⟩

/-- The frame with an identifier. -/
def frame? (f : Forest α) (id : FrameId) : Option (Frame α) :=
  f.frames[id.index]?

/-- The frames that a look-up from `id` visits, in order. -/
def chain (f : Forest α) (id : FrameId) : List FrameId :=
  id :: match f.frame? id with
    | some frame => frame.outer
    | none => []

/-- A further empty frame with no frame around it; its identifier is `next`. -/
def addRoot (f : Forest α) : Forest α :=
  ⟨f.frames.push ⟨.empty, []⟩⟩

/-- A further empty frame inside `id`; its identifier is `next`. -/
def addChild (f : Forest α) (id : FrameId) : Forest α :=
  ⟨f.frames.push ⟨.empty, f.chain id⟩⟩

/-! ## Bindings -/

/-- The value that a name has in one frame, not looking at those around it. -/
def local? (f : Forest α) (id : FrameId) (name : String) : Option α :=
  (f.frame? id).bind fun frame => frame.bindings.find? name

/-- The names bound in one frame, in order. -/
def names (f : Forest α) (id : FrameId) : List String :=
  match f.frame? id with
  | some frame => frame.bindings.names
  | none => []

/-- Binds a name in a frame, whether or not it is bound there already. -/
def define (f : Forest α) (id : FrameId) (name : String) (value : α) : Forest α :=
  ⟨f.frames.modify id.index fun frame =>
    { frame with bindings := frame.bindings.insert name value }⟩

/-- The nearest frame that binds a name. -/
def owner? (f : Forest α) (id : FrameId) (name : String) : Option FrameId :=
  (f.chain id).find? fun i => (f.local? i name).isSome

/-- The value of a name: that in the nearest frame that binds it. -/
def lookup (f : Forest α) (id : FrameId) (name : String) : Option α :=
  (f.chain id).findSome? fun i => f.local? i name

/-- Gives a name a new value where it is bound; a name that is not bound is not
bound by this. -/
def assign? (f : Forest α) (id : FrameId) (name : String) (value : α) : Option (Forest α) :=
  match f.owner? id name with
  | some owner => some (f.define owner name value)
  | none => none

end Forest

end Lox
