/-
`Lox.Proofs.Method.Rooted` -- where `this` and `super` are found.

Both are looked up by name. That finds the receiver of the activation that the code
stands in, and the superclass of the class that its method is from, because the frames
around the code have been created along with the activations (`Seated`): the innermost
frame with a receiver belongs to the innermost activation, and the innermost one with a
superclass to the innermost activation of a class that has one.

A function is run later and elsewhere, and a method gets its receiver only when it is
looked up. So everything that a machine holds is followed: the frame of a function is
seated and its body is a piece of text inside of the classes that the activations say
(`Rooted`). No step ever changes what is bound to these two names in a frame that is
there, or its activations, and that is all that matters for what was rooted to stay so
(`Onward`).
-/
import Lox.Proofs.Method.Activation
import Lox.Proofs.Method.Keyword

set_option autoImplicit false

namespace Lox

/-! ## Classes and receivers that belong together -/

/-- The class that the method is of is the receiver's, or one that it inherits from. -/
def Activation.Native (a : Activation) : Prop :=
  a.own :: a.parent.elim [] Class.lineage <:+ a.cls.lineage

/-- If any class around has a superclass, the innermost one has. -/
def SuperUse.Sturdy (u : SuperUse) : Prop :=
  (∃ decl ∈ u.classes, decl.superclass.isSome) → ∃ decl ∈ u.classes.head?, decl.superclass.isSome

instance : DecidablePred SuperUse.Sturdy := fun u =>
  inferInstanceAs (Decidable ((∃ decl ∈ u.classes, decl.superclass.isSome) →
    ∃ decl ∈ u.classes.head?, decl.superclass.isSome))

/-- All uses of `super` are such ones. -/
def SuperUse.AllSturdy (U : SuperUse → Prop) : Prop :=
  ∀ u, U u → u.Sturdy

namespace Machine

/-- A machine holds the values that names are bound to, and those of fields. -/
inductive Holds (m : Machine) : Value → Prop
  | name {id : FrameId} {name : String} {value : Value} :
    m.forest.local? id name = some value → Holds m value
  | field {i : Nat} {fields : Table Value} {name : String} {value : Value} :
    m.fields[i]? = some fields → fields.find? name = some value → Holds m value

/-- What is looked up is held. -/
theorem holds_of_lookup {m : Machine} {id : FrameId} {name : String} {value : Value}
    (h : m.forest.lookup id name = some value) : m.Holds value := by
  obtain ⟨key, -, hlocal⟩ := List.exists_of_findSome?_eq_some h
  exact .name hlocal

/-! ## Later scenes -/

/-- Later on: frames are still there, with the same activations, and the two names are
bound in them and seen from them as before. -/
structure Scene.Onward (s s' : Scene Surroundings) : Prop where
  present : ∀ {id}, s.machine.forest.Present id → s'.machine.forest.Present id
  bound : ∀ {id}, s.machine.forest.Present id → ∀ key ∈ keywords,
    s'.machine.forest.local? id key = s.machine.forest.local? id key
  lookup : ∀ {id}, s.machine.forest.Present id → ∀ key ∈ keywords,
    s'.machine.forest.lookup id key = s.machine.forest.lookup id key
  around : ∀ {id}, s.machine.forest.Present id → s'.account.around id = s.account.around id
  execution? : ∀ {serial e}, s.account.execution? serial = some e →
    s'.account.execution? serial = some e
  fields : s.machine.fields.size ≤ s'.machine.fields.size
  serial : s.machine.nextSerial ≤ s'.machine.nextSerial

namespace Scene.Onward

variable {s s' s'' : Scene Surroundings}

protected theorem refl (s : Scene Surroundings) : s.Onward s :=
  ⟨id, fun _ _ _ => rfl, fun _ _ _ => rfl, fun _ => rfl, id, Nat.le_refl _, Nat.le_refl _⟩

/-- What is later than something later is later. -/
protected theorem trans (h : s.Onward s') (h' : s'.Onward s'') : s.Onward s'' where
  present hid := h'.present (h.present hid)
  bound hid key hkey := (h'.bound (h.present hid) key hkey).trans (h.bound hid key hkey)
  lookup hid key hkey := (h'.lookup (h.present hid) key hkey).trans (h.lookup hid key hkey)
  around hid := (h'.around (h.present hid)).trans (h.around hid)
  execution? he := h'.execution? (h.execution? he)
  fields := Nat.le_trans h.fields h'.fields
  serial := Nat.le_trans h.serial h'.serial

end Scene.Onward

end Machine

open Machine (Scene)

/-! ## What is rooted -/

section Rooted

-- what is known of the uses of `super` in the texts that are run
variable (U : SuperUse → Prop)

/-- The class was declared with a superclass if it names one, and if all uses of `super`
are sturdy then it is the receiver's or one that it inherits from. -/
structure Activation.Sound (a : Activation) : Prop where
  superclass : a.decl.superclass.isSome = a.parent.isSome
  native : SuperUse.AllSturdy U → a.Native

/-- Code in the frame finds what the activations say: as `this` the receiver of the
innermost one, and as `super` the superclass of the innermost one that has one. -/
structure Machine.Scene.Seated (s : Scene Surroundings) (id : FrameId) : Prop where
  this : s.machine.forest.lookup id "this"
    = (s.account.around id).head?.map Activation.receiver
  super : s.machine.forest.lookup id "super"
    = ((s.account.around id).findSome? Activation.parent).map Value.classRef
  recorded : ∀ a outer, s.account.around id = a :: outer →
    s.account.execution? a.own.serial = some ⟨a.decl, a.parent, outer⟩
  activations : ∀ a ∈ s.account.around id, a.Sound U

/-- A declaration was executed with a superclass if it names one. -/
structure Execution.Sound (e : Execution) : Prop where
  superclass : e.decl.superclass.isSome = e.parent.isSome
  outer : ∀ a ∈ e.outer, a.Sound U

/-- A method that has its receiver, closed over the frame in which that is bound. -/
structure Closure.Received (s : Scene Surroundings) (fn : Closure) (a : Activation) : Prop where
  around : (s.account.around fn.frame).head? = some a
  this : s.machine.forest.local? fn.frame "this" = some a.receiver
  isInitializer : fn.isInitializer = (fn.name == "init")
  method : ∃ method, a.own.methods.find? fn.name = some method ∧ method.decl = fn.decl

/-- The function is closed over a seated frame, and its text is inside of the classes
whose activations are around it. Either it is no method, or it has its receiver. -/
structure Closure.Rooted (s : Scene Surroundings) (fn : Closure) : Prop where
  present : s.machine.forest.Present fn.frame
  super : s.machine.forest.local? fn.frame "super" = none
  lawful : fn.decl.Lawful U ((s.account.around fn.frame).map Activation.decl)
  sort : fn.isInitializer = false ∧ s.machine.forest.local? fn.frame "this" = none ∨
    ∃ a, fn.Received s a

/-- From the frame everything is seen that belongs to the execution of a class, and not
yet a receiver. -/
structure Machine.Scene.Encloses (s : Scene Surroundings) (e : Execution) (id : FrameId) :
    Prop where
  present : s.machine.forest.Present id
  this : s.machine.forest.lookup id "this" = e.outer.head?.map Activation.receiver
  super : s.machine.forest.lookup id "super"
    = (e.parent.or (e.outer.findSome? Activation.parent)).map Value.classRef

/-- The method belongs to the execution of its class, under this name. -/
structure Closure.RootedMethod (s : Scene Surroundings) (e : Execution) (name : String)
    (fn : Closure) : Prop where
  frame : s.Encloses e fn.frame
  lawful : fn.decl.Lawful U (e.decl :: e.outer.map Activation.decl)
  named : fn.name = name
  isInitializer : fn.isInitializer = (name == "init")

/-- Each declaration that the class has its methods from was executed, and what it
inherits from stands behind it. -/
def Class.Rooted (s : Scene Surroundings) (cls : Class) : Prop :=
  ∀ own rest, own :: rest <:+ cls.lineage →
    ∃ e, s.account.execution? own.serial = some e ∧ rest = e.ancestors ∧
      ∀ name fn, own.methods.find? name = some fn → fn.RootedMethod U s e name

/-- The functions and classes that a value is made of are rooted, and an instance is one
that has been created. -/
def Value.Rooted (s : Scene Surroundings) : Value → Prop
  | .function _ fn => fn.Rooted U s
  | .classRef cls => cls.Rooted U s
  | .instanceOf cls id => cls.Rooted U s ∧ id.index < s.machine.fields.size
  | .nil | .bool _ | .number _ | .text _ | .host _ => True

variable {U} {s s' : Scene Surroundings} {id : FrameId} {fn : Closure} {cls : Class}
  {value : Value}

/-- A plain value is made of nothing. -/
theorem Value.Plain.rooted (h : value.Plain) : value.Rooted U s := by
  cases value <;> trivial

/-! ### What was rooted stays so -/

/-- A seated frame stays seated, as nothing comes to see another receiver from it. -/
theorem Machine.Scene.Seated.onward (h : s.Seated U id) (hid : s.machine.forest.Present id)
    (honward : s.Onward s') : s'.Seated U id := by
  refine ⟨?_, ?_, fun a outer haround => ?_, ?_⟩
  · rw [honward.lookup hid _ (by decide), honward.around hid, h.this]
  · rw [honward.lookup hid _ (by decide), honward.around hid, h.super]
  · rw [honward.around hid] at haround
    exact honward.execution? (h.recorded a outer haround)
  · rw [honward.around hid]
    exact h.activations

/-- A method keeps its receiver. -/
theorem Closure.Received.onward {a : Activation} (h : fn.Received s a)
    (hid : s.machine.forest.Present fn.frame) (honward : s.Onward s') : fn.Received s' a := by
  refine ⟨?_, ?_, h.isInitializer, h.method⟩
  · rw [honward.around hid, h.around]
  · rw [honward.bound hid _ (by decide), h.this]

/-- Functions stay rooted. -/
theorem Closure.Rooted.onward (h : fn.Rooted U s) (honward : s.Onward s') : fn.Rooted U s' := by
  refine ⟨honward.present h.present, ?_, ?_, ?_⟩
  · rw [honward.bound h.present _ (by decide), h.super]
  · rw [honward.around h.present]
    exact h.lawful
  · rcases h.sort with ⟨hinit, hthis⟩ | ⟨a, ha⟩
    · rw [← honward.bound h.present _ (by decide)] at hthis
      exact .inl ⟨hinit, hthis⟩
    · exact .inr ⟨a, ha.onward h.present honward⟩

/-- What belongs to the execution of a class is seen later on. -/
theorem Machine.Scene.Encloses.onward {e : Execution} (h : s.Encloses e id)
    (honward : s.Onward s') : s'.Encloses e id := by
  refine ⟨honward.present h.present, ?_, ?_⟩
  · rw [honward.lookup h.present _ (by decide), h.this]
  · rw [honward.lookup h.present _ (by decide), h.super]

/-- So methods stay where they belong. -/
theorem Closure.RootedMethod.onward {e : Execution} {name : String}
    (h : fn.RootedMethod U s e name) (honward : s.Onward s') : fn.RootedMethod U s' e name :=
  ⟨h.frame.onward honward, h.lawful, h.named, h.isInitializer⟩

theorem Class.Rooted.onward (h : cls.Rooted U s) (honward : s.Onward s') : cls.Rooted U s' := by
  intro own rest hsuffix
  obtain ⟨e, he, hrest, hmethods⟩ := h own rest hsuffix
  exact ⟨e, honward.execution? he, hrest, fun name fn hfn => (hmethods name fn hfn).onward honward⟩

theorem Value.Rooted.onward (h : value.Rooted U s) (honward : s.Onward s') :
    value.Rooted U s' := by
  cases value with
  | function serial fn => exact Closure.Rooted.onward h honward
  | classRef cls => exact Class.Rooted.onward h honward
  | instanceOf cls id =>
    exact ⟨Class.Rooted.onward h.1 honward, Nat.lt_of_lt_of_le h.2 honward.fields⟩
  | _ => trivial

/-- Where a method is found, its class was declared, and the method belongs to that. -/
theorem Class.Rooted.findMethod? {name : String} (h : cls.Rooted U s)
    (hfind : cls.findMethod? name = some fn) :
    ∃ own e, cls.definer? name = some own ∧ own :: e.ancestors <:+ cls.lineage ∧
      own.methods.find? name = some fn ∧ s.account.execution? own.serial = some e ∧
      fn.RootedMethod U s e name := by
  obtain ⟨own, rest, hown, hsuffix, hfn⟩ := Class.definer?_of_findMethod? hfind
  obtain ⟨e, he, rfl, hmethods⟩ := h own rest hsuffix
  exact ⟨own, e, hown, hsuffix, hfn, he, hmethods name fn hfn⟩

end Rooted

/-! ## Scenes -/

namespace Machine

/-- Everything in a scene is in order: frames with a receiver or a superclass bind
nothing else, all others are seated, all values are rooted, functions of the host return
nothing else than what they were given, and the current frame is none of the frames for
one name. -/
structure Scene.Sound (U : SuperUse → Prop) (s : Scene Surroundings) : Prop where
  tidy : ∀ id frame, s.machine.forest.frame? id = some frame → frame.Tidy
  closed : s.machine.forest.Closed
  seated : ∀ {id}, s.machine.forest.Present id → s.machine.forest.local? id "super" = none →
    s.Seated U id
  executions : ∀ serial e, s.account.execution? serial = some e → e.Sound U
  values : ∀ value, s.machine.Holds value → value.Rooted U s
  hosts : ∀ (i : Nat) (body : HostBody), s.machine.hosts[i]? = some body →
    ∀ args value, body args = .ok value → value ∈ args ∨ value.Rooted U s
  present : s.machine.forest.Present s.machine.current
  plain : ∀ key ∈ keywords, s.machine.forest.local? s.machine.current key = none

/-- No class has a number yet that will be given out. -/
def Scene.Fresh (s : Scene Surroundings) : Prop :=
  ∀ serial e, s.account.execution? serial = some e → serial < s.machine.nextSerial

namespace Scene.Sound

variable {U : SuperUse → Prop} {s s' : Scene Surroundings} {id : FrameId} {name : String}
  {value : Value}

/-- The current frame is one of those that are seated. -/
theorem seated_current (h : s.Sound U) : s.Seated U s.machine.current :=
  h.seated h.present (h.plain _ (by decide))

/-- A frame that binds another name binds neither of the two. -/
theorem plain_of_local? (h : s.Sound U) (hname : name ∉ keywords)
    (hlocal : (s.machine.forest.local? id name).isSome) :
    ∀ key ∈ keywords, s.machine.forest.local? id key = none := by
  obtain ⟨frame, hframe⟩ := Forest.isSome_frame?_of_local? hlocal
  have hmem := (Forest.isSome_local?_iff hframe).mp hlocal
  have htidy := h.tidy id frame hframe
  have hother : ∀ key ∈ keywords, frame.bindings.names ≠ [key] := by
    rintro key hkey hnames
    rw [hnames, List.mem_singleton] at hmem
    exact hname (hmem ▸ hkey)
  intro key hkey
  rw [Forest.local?, hframe, Option.bind_some]
  by_contra hbound
  obtain ⟨value, hvalue⟩ := Option.ne_none_iff_exists'.mp hbound
  simp only [keywords, List.mem_cons, List.not_mem_nil, or_false] at hkey
  rcases hkey with rfl | rfl
  · exact hother _ (by decide) (htidy.this value hvalue).1
  · exact hother _ (by decide) (htidy.super value hvalue).1

/-- What has to be seen of a later scene, besides that it is a later one. -/
theorem onward (h : s.Sound U) (honward : s.Onward s')
    (htidy : ∀ id frame, s'.machine.forest.frame? id = some frame → frame.Tidy)
    (hclosed : s'.machine.forest.Closed)
    (hnew : ∀ id, s'.machine.forest.Present id → ¬ s.machine.forest.Present id →
      s'.machine.forest.local? id "super" = none → s'.Seated U id)
    (hexecutions : ∀ serial e, s'.account.execution? serial = some e →
      s.account.execution? serial = some e ∨ e.Sound U)
    (hvalues : ∀ value, s'.machine.Holds value → s.machine.Holds value ∨ value.Rooted U s')
    (hhosts : s'.machine.hosts = s.machine.hosts)
    (hcurrent : s'.machine.current = s.machine.current) : s'.Sound U where
  tidy := htidy
  closed := hclosed
  seated := by
    intro id hid hsuper
    by_cases hold : s.machine.forest.Present id
    · rw [honward.bound hold _ (by decide)] at hsuper
      exact (h.seated hold hsuper).onward hold honward
    · exact hnew id hid hold hsuper
  executions serial e he := (hexecutions serial e he).elim (h.executions serial e) id
  values value hvalue := (hvalues value hvalue).elim
    (fun hold => (h.values value hold).onward honward) id
  hosts i body hbody args value hresult := by
    rw [hhosts] at hbody
    exact (h.hosts i body hbody args value hresult).imp_right (·.onward honward)
  present := hcurrent ▸ honward.present h.present
  plain key hkey := by
    rw [hcurrent, honward.bound h.present key hkey, h.plain key hkey]

end Scene.Sound

end Machine

end Lox
