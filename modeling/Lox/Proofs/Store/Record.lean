/-
`Lox.Proofs.Store.Record` -- what there is to know about environments.

The frames that environments are kept in are nothing that a host can see. What it
can see are answers, and what it knows is what it has asked for before. So the laws of
environments are said in terms of a record of the requests: which environments have
been made and inside of which others, which environment each handle is for, what was
defined and what was written. A write through a handle goes to an environment that
follows from the record itself: the nearest one, from that of the handle outwards,
in which the name has been defined.
-/
import Mathlib.Logic.Relation
import Lox.Proofs.Store.Names
import Lox.Store.Handles

set_option autoImplicit false

namespace Lox

/-- What was asked for so far, as far as later answers depend on it. Environments are
numbered in the order in which they were made. -/
structure Record (α : Type) where
  /-- The environment around each of them, if there is one. -/
  parents : List (Option FrameId)
  /-- The environment that each handle is for. -/
  handles : List FrameId
  /-- In which environments which names have been defined. -/
  defined : List (FrameId × String)
  /-- In which environments which names have been given which values, latest first. -/
  writes : List (FrameId × String × α)

namespace Record

variable {α : Type}

/-- Before the first request. -/
def start : Record α := ⟨[], [], [], []⟩

/-- The environment that is made next. -/
def next (r : Record α) : FrameId := ⟨r.parents.length⟩

/-- One environment was made right inside another. -/
def Inside (r : Record α) (id parent : FrameId) : Prop :=
  r.parents[id.index]? = some (some parent)

/-- A name has been defined in an environment. -/
def Binds (r : Record α) (id : FrameId) (name : String) : Prop :=
  (id, name) ∈ r.defined

/-- One gets from an environment outwards to another, through such as are of one
kind. -/
def Leads (r : Record α) (through : FrameId → Prop) : FrameId → FrameId → Prop :=
  Relation.ReflTransGen fun id parent => through id ∧ r.Inside id parent

/-- An environment is another one or around it. -/
def OnChain (r : Record α) : FrameId → FrameId → Prop :=
  r.Leads fun _ => True

/-- On the way from one environment outwards to another nothing binds the name. -/
def Reaches (r : Record α) (name : String) : FrameId → FrameId → Prop :=
  r.Leads fun id => ¬ r.Binds id name

/-- The nearest environment that binds a name. -/
def Nearest (r : Record α) (name : String) (id owner : FrameId) : Prop :=
  r.Reaches name id owner ∧ r.Binds owner name

/-- The value that a name was given last in an environment. -/
def lastWritten? (r : Record α) (id : FrameId) (name : String) : Option α :=
  r.writes.findSome? fun (written, key, value) =>
    if written = id ∧ name = key then some value else none

/-! ## Requests -/

/-- A further environment, with a handle for it. -/
def made (r : Record α) (parent : Option FrameId) : Record α :=
  { r with parents := r.parents ++ [parent], handles := r.handles ++ [r.next] }

/-- A value given to a name in an environment. -/
def written (r : Record α) (id : FrameId) (name : String) (value : α) : Record α :=
  { r with writes := (id, name, value) :: r.writes }

/-- The record after a request. Questions leave it as it is, and so does a request
through a handle that was never given. -/
inductive Takes (r : Record α) : Handles.Request α → Record α → Prop where
  | new : r.Takes .new (r.made none)
  | child {handle : Nat} {id : FrameId} (hhandle : r.handles[handle]? = some id) :
    r.Takes (.child handle) (r.made (some id))
  | noChild {handle : Nat} (hhandle : r.handles[handle]? = none) : r.Takes (.child handle) r
  | clone {handle : Nat} {id : FrameId} (hhandle : r.handles[handle]? = some id) :
    r.Takes (.clone handle) { r with handles := r.handles ++ [id] }
  | noClone {handle : Nat} (hhandle : r.handles[handle]? = none) : r.Takes (.clone handle) r
  | define {handle : Nat} {id : FrameId} {name : String} {value : α}
    (hhandle : r.handles[handle]? = some id) :
    r.Takes (.define handle name value)
      { r.written id name value with defined := (id, name) :: r.defined }
  | noDefine {handle : Nat} {name : String} {value : α} (hhandle : r.handles[handle]? = none) :
    r.Takes (.define handle name value) r
  | assign {handle : Nat} {id owner : FrameId} {name : Token} {value : α}
    (hhandle : r.handles[handle]? = some id) (howner : r.Nearest name.lexeme id owner) :
    r.Takes (.assign handle name value) (r.written owner name.lexeme value)
  | noAssign {handle : Nat} {name : Token} {value : α}
    (hunbound : ∀ id owner, r.handles[handle]? = some id → ¬ r.Nearest name.lexeme id owner) :
    r.Takes (.assign handle name value) r
  | get {handle : Nat} {name : Token} : r.Takes (.get handle name) r
  | lookup {handle : Nat} {name : String} : r.Takes (.lookup handle name) r
  | names {handle : Nat} : r.Takes (.names handle) r
  | same {handle other : Nat} : r.Takes (.same handle other) r

/-- The record after requests that are made one after another. -/
inductive TakesAll : Record α → List (Handles.Request α) → Record α → Prop where
  | nil {r : Record α} : TakesAll r [] r
  | cons {r r' r'' : Record α} {request : Handles.Request α} {rest : List (Handles.Request α)}
    (hfirst : r.Takes request r') (hrest : TakesAll r' rest r'') :
    TakesAll r (request :: rest) r''

end Record

/-! ## The laws -/

namespace Handles

variable {α : Type}

/-- What a look-up through a handle finds. -/
def finds (s : Handles α) (handle : Nat) (name : String) : Option α :=
  match (s.serve (.lookup handle name)).1 with
  | some (.found value) => value
  | _ => none

/-- The names that are listed for a handle. -/
def lists (s : Handles α) (handle : Nat) : List String :=
  match (s.serve (.names handle)).1 with
  | some (.names names) => names
  | _ => []

/-- The request through one handle where it was through another. -/
def Request.redirect (old new : Nat) : Request α → Request α
  | .new => .new
  | .child handle => .child (swap handle)
  | .clone handle => .clone (swap handle)
  | .define handle name value => .define (swap handle) name value
  | .assign handle name value => .assign (swap handle) name value
  | .get handle name => .get (swap handle) name
  | .lookup handle name => .lookup (swap handle) name
  | .names handle => .names (swap handle)
  | .same handle other => .same (swap handle) (swap other)
where
  swap (handle : Nat) : Nat := if handle = old then new else handle

/-- A value has been given to a name: the handles whose environments see that find it,
and no other look-up finds anything else than before. -/
structure Rewrites (s after : Handles α) (r : Record α) (name : String) (value : α)
    (sees : FrameId → Prop) : Prop where
  seen : ∀ handle id, r.handles[handle]? = some id → sees id → after.finds handle name = some value
  unseen : ∀ handle id, r.handles[handle]? = some id → ¬ sees id →
    after.finds handle name = s.finds handle name
  others : ∀ handle other, other ≠ name → after.finds handle other = s.finds handle other

/-- Environments that answer as the record says. -/
structure Obeys (s : Handles α) (r : Record α) : Prop where
  /-- New handles have the next number. -/
  numbered : ∀ request r', r.Takes request r' → r.handles.length < r'.handles.length →
    (s.serve request).1 = some (.handle r.handles.length)
  /-- Questions are answered, and change nothing. -/
  lookup : ∀ handle id name, r.handles[handle]? = some id →
    s.serve (.lookup handle name) = (some (.found (s.finds handle name)), s)
  names : ∀ handle id, r.handles[handle]? = some id →
    s.serve (.names handle) = (some (.names (s.lists handle)), s)
  same : ∀ handle other id id', r.handles[handle]? = some id → r.handles[other]? = some id' →
    s.serve (.same handle other) = (some (.same (decide (id = id'))), s)
  /-- A look-up finds what was last written to the name in the nearest environment that
  binds it. -/
  finds_nearest : ∀ handle id owner name, r.handles[handle]? = some id →
    r.Nearest name id owner →
    ∃ value, r.lastWritten? owner name = some value ∧ s.finds handle name = some value
  /-- It finds nothing just if no environment around binds the name. -/
  finds_none : ∀ handle id name, r.handles[handle]? = some id →
    (s.finds handle name = none ↔ ∀ outer, r.OnChain id outer → ¬ r.Binds outer name)
  /-- What is asked for by a token is what a look-up finds, and else a failure at the
  token. -/
  get : ∀ handle id (name : Token), r.handles[handle]? = some id →
    (∀ value, s.finds handle name.lexeme = some value →
      s.serve (.get handle name) = (some (.value value), s)) ∧
    (s.finds handle name.lexeme = none →
      s.serve (.get handle name) = (some (.failed (.undefinedVariable name)), s))
  /-- An assignment to a name that is found gives it the value in the nearest environment
  that binds it, for all handles that find it there. No name is added. -/
  assign : ∀ handle id (name : Token) value found, r.handles[handle]? = some id →
    s.finds handle name.lexeme = some found →
    ∃ owner after, r.Nearest name.lexeme id owner ∧
      s.serve (.assign handle name value) = (some .done, after) ∧
      s.Rewrites after r name.lexeme value (fun id' => r.Nearest name.lexeme id' owner) ∧
      ∀ handle', after.lists handle' = s.lists handle'
  /-- An assignment to a name that is not found fails and changes nothing. -/
  assign_fails : ∀ handle id (name : Token) value, r.handles[handle]? = some id →
    s.finds handle name.lexeme = none →
    s.serve (.assign handle name value) = (some (.failed (.undefinedVariable name)), s)
  /-- A definition gives the name a value in the environment of the handle, for all
  handles from which that is reached without finding the name before. It adds the name
  there and nothing anywhere else. -/
  define : ∀ handle id name value, r.handles[handle]? = some id →
    ∃ after, s.serve (.define handle name value) = (some .done, after) ∧
      s.Rewrites after r name value (fun id' => r.Reaches name id' id) ∧
      ∀ handle' id', r.handles[handle']? = some id' →
        (id' ≠ id → after.lists handle' = s.lists handle') ∧
        (id' = id → ∀ other, other ∈ after.lists handle' ↔ other = name ∨ other ∈ s.lists handle')
  /-- Handles for one environment can stand for one another in all that is asked later. -/
  aliases : ∀ handle other id, r.handles[handle]? = some id → r.handles[other]? = some id →
    ∀ requests, s.serveAll (requests.map (Request.redirect handle other)) = s.serveAll requests
  /-- Listed are the names that have been defined, by their bytes and each once. -/
  listed : ∀ handle id, r.handles[handle]? = some id →
    (s.lists handle).Pairwise (fun a b => byteList a < byteList b) ∧
      ∀ name, name ∈ s.lists handle ↔ r.Binds id name

end Handles

end Lox
