/-
`Lox.Proofs.Method.Superclass` -- what `super` stands for.

A use of `super` belongs to the innermost class around it, and at run time to one
execution of the declaration of that class: the one that the method is from whose
activation the code stands in. If the class names a superclass, `super` stands for what
that name stood for when the declaration was executed, and nothing that has happened
since makes a difference, nor what the receiver is an instance of.

If the class names none, `super` goes through to the next class around it that does,
while `this` remains the receiver of the innermost one. Then a method may be run on an
instance of a class that has nothing to do with it. In a program in which no `super`
goes through, every method is run on instances of the classes that have inherited it.
-/
import Lox.Proofs.Method.Receiver

set_option autoImplicit false

namespace Lox.Machine

open Surroundings (note)

/-! ## The declaration that a class is from -/

section Executions

variable {U : SuperUse → Prop} {w : Story Surroundings}

/-- The declaration that an activation belongs to has been executed before. -/
theorem Story.Sound.declared_earlier (h : w.Sound U)
    (htold : ∀ serial e, w.account.execution? serial = some e →
      ∃ mo ∈ w.moments, mo.Declares serial e)
    {later earlier : List (Moment Surroundings)} {mo : Moment Surroundings} {expr : Expr}
    (hmoments : w.moments = later ++ mo :: earlier) (hevent : mo.event = .evaluates expr)
    {serial : Nat} {e : Execution} (he : mo.account.execution? serial = some e) :
    ∃ declared ∈ earlier, declared.Declares serial e := by
  have hmem : mo ∈ w.moments := by simp [hmoments]
  obtain ⟨declared, hdeclared, hdeclares⟩ :=
    htold serial e ((h.before mo hmem).onward.execution? he)
  rw [hmoments, List.mem_append, List.mem_cons] at hdeclared
  rcases hdeclared with hlater | rfl | hearlier
  · -- later on this number would have been given out already
    have horder := h.order
    rw [hmoments, List.pairwise_append] at horder
    have hbefore : mo.Before declared.toScene :=
      horder.2.2 declared hlater mo List.mem_cons_self
    have hlawful := (h.moments mo hmem).2
    rw [hevent] at hlawful
    have hlt : serial < serial := by
      calc serial < mo.machine.nextSerial := hlawful.1 serial e he
        _ ≤ declared.machine.nextSerial := hbefore.onward.serial
        _ = serial := hdeclares.serial
    exact absurd hlt (Nat.lt_irrefl _)
  · cases hevent.symm.trans hdeclares.event
  · exact ⟨declared, hearlier, hdeclares⟩

end Executions

/-! ## Uses of `super` in a session -/

/-- `super` and a name, in a session of texts in which the host defines neither `this`
nor `super`. What is evaluated is a use of `super` in one of the texts, and the classes
around it are those whose activations are around the current frame. If the innermost one
names a superclass, this was found when the declaration was executed, which was earlier
and inside of the same activations; and the result is the method that this class has,
with the receiver of the activation, or that it has none of this name. -/
theorem super_is_fixed {clock : Float} {sink : Sink} {session : List (Nat × Request)}
    (h : (boot clock sink).Ordinary session) :
    let story := (boot clock sink).begin.serveAll note session
    story.machine = (boot clock sink).serveAll session ∧
    ∀ later mo earlier, story.moments = later ++ mo :: earlier →
      ∀ keyword method, mo.event = .evaluates (.super keyword method) →
        ⟨keyword, method, mo.toScene.classes⟩ ∈ supersOf session ∧
        ∀ a outer, mo.account.around mo.machine.current = a :: outer →
          a.decl.superclass.isSome →
          ∃ parent, a.parent = some parent ∧
            (∃ declared ∈ earlier, declared.Declares a.own.serial ⟨a.decl, some parent, outer⟩) ∧
            mo.machine.forest.lookup mo.machine.current "this" = some a.receiver ∧
            ∀ fuel, evaluate (fuel + 1) (.super keyword method) mo.machine =
              match parent.findMethod? method.lexeme with
              | some found => (Machine.bind found a.receiver >>= newClosure) mo.machine
              | none => .error (.failed (.undefinedProperty method)) mo.machine := by
  intro story
  have hleads : (boot clock sink).begin.Leads (· ∈ supersOf session) story :=
    serveAll_leads (begin_sound clock sink) (begin_idle clock sink) h fun _ hu => hu
  -- every class that is known of was declared in the session, which began without any
  have htold : ∀ serial e, story.account.execution? serial = some e →
      ∃ mo ∈ story.moments, mo.Declares serial e := by
    intro serial e he
    exact (hleads.told serial e he).resolve_left fun hnone => by cases hnone
  refine ⟨Story.machine_serveAll note _ _, ?_⟩
  intro later mo earlier hmoments keyword method hevent
  obtain ⟨hsound, hlawful⟩ := hleads.sound.moments mo (by simp [hmoments])
  rw [hevent] at hlawful
  -- the use is one in the texts, because nothing else is evaluated
  refine ⟨hlawful.2.supers _ List.mem_cons_self, fun a outer haround hsuperclass => ?_⟩
  have hseated := hsound.seated_current
  have ha : a.Sound (· ∈ supersOf session) :=
    hseated.activations a (haround ▸ List.mem_cons_self)
  -- an activation has a superclass exactly if its declaration names one
  rw [ha.superclass] at hsuperclass
  obtain ⟨parent, hparent⟩ := Option.isSome_iff_exists.mp hsuperclass
  have hthis : mo.machine.forest.lookup mo.machine.current "this" = some a.receiver := by
    rw [hseated.this, haround]
    rfl
  have hsuper : mo.machine.forest.lookup mo.machine.current "super" = some (.classRef parent) := by
    rw [hseated.super, haround, List.findSome?_cons, hparent]
    rfl
  -- what `super` gives is then a look-up in two names that the activation fixes
  refine ⟨parent, hparent, ?_, hthis, fun fuel => readSuper_of_some keyword method hsuper hthis⟩
  rw [← hparent]
  exact hleads.sound.declared_earlier htold hmoments hevent (hseated.recorded a outer haround)

/-- The receiver is an instance of a class two levels down, and `super` is used in a
function in the method, which is called when the method is done. By then both the class
and its superclass have other names, and theirs stand for something else. -/
theorem super_is_fixed_renamed :
    let first := "class A\x7bm()\x7b\x7d\x7dclass B<A\x7bm()\x7bfun f()\x7bsuper.m();\x7dreturn f;\x7d\x7d"
    let second := "class C<B\x7b\x7dvar b=B;A=nil;B=nil;C().m()();"
    let session : List (Nat × Request) :=
      [(20, .interpret (Program.ofSource first).stmts),
        (20, .interpret (Program.ofSource second).stmts)]
    let story := (boot 0 .unlimited).begin.serveAll note session
    (boot 0 .unlimited).Ordinary session ∧
      story.moments.filterMap (fun mo => match mo.event with
        | .evaluates (.super _ method) => some (method.lexeme,
          (mo.account.around mo.machine.current).map fun a =>
            (a.own.name, a.cls.name, a.parent.map Class.name))
        | _ => none) = [("m", [("B", "C", some "A")])] ∧
      ∀ later mo earlier, story.moments = later ++ mo :: earlier →
        ∀ keyword method, mo.event = .evaluates (.super keyword method) →
          ⟨keyword, method, mo.toScene.classes⟩ ∈ supersOf session ∧
          ∀ a outer, mo.account.around mo.machine.current = a :: outer →
            a.decl.superclass.isSome →
            ∃ parent, a.parent = some parent ∧
              (∃ declared ∈ earlier,
                declared.Declares a.own.serial ⟨a.decl, some parent, outer⟩) ∧
              mo.machine.forest.lookup mo.machine.current "this" = some a.receiver ∧
              ∀ fuel, evaluate (fuel + 1) (.super keyword method) mo.machine =
                match parent.findMethod? method.lexeme with
                | some found => (Machine.bind found a.receiver >>= newClosure) mo.machine
                | none => .error (.failed (.undefinedProperty method)) mo.machine := by
  dsimp only
  suffices hordinary : _ from ⟨hordinary, by decide +kernel, (super_is_fixed hordinary).2⟩
  exact ⟨⟨_, rfl⟩, ⟨_, rfl⟩, trivial⟩

/-! ## Methods and the instances that they are run on -/

/-- If a use of `super` is evaluated at this moment and gives something, the class that
it stands for is one that the class of the receiver inherits from. -/
def Moment.Inherits {G : Type} (mo : Moment G) : Prop :=
  ∀ keyword method, mo.event = .evaluates (.super keyword method) →
    ∀ fuel value m, evaluate fuel (.super keyword method) mo.machine = .ok value m →
      ∃ parent cls id,
        mo.machine.forest.lookup mo.machine.current "super" = some (.classRef parent) ∧
        mo.machine.forest.lookup mo.machine.current "this" = some (.instanceOf cls id) ∧
        parent.lineage <:+ cls.ancestors

/-- If a method is called at this moment, it is one that the class of its receiver has
or has inherited. -/
def Moment.Owns {G : Type} (mo : Moment G) : Prop :=
  ∀ fn args, mo.event = .calls (.function fn) args →
    ∀ cls id, mo.machine.forest.local? fn.frame "this" = some (.instanceOf cls id) →
      ∃ own ∈ cls.lineage, ∃ method, own.methods.find? fn.name = some method ∧
        method.decl = fn.decl

/-- A use of `super` finds a method at this moment, in a class that is not among those
that the receiver's class inherits from. -/
def Moment.isForeign {G : Type} (mo : Moment G) : Bool :=
  match mo.event with
  | .evaluates (.super _ method) =>
    match mo.machine.forest.lookup mo.machine.current "super",
        mo.machine.forest.lookup mo.machine.current "this" with
    | some (.classRef parent), some (.instanceOf cls _) =>
      (parent.findMethod? method.lexeme).isSome &&
        decide (parent.own.serial ∉ cls.ancestors.map ClassBody.serial)
    | _, _ => false
  | _ => false

/-- When a foreign method is found, `super` stands for no class that the receiver inherits from. -/
theorem Moment.not_inherits {G : Type} {mo : Moment G} (h : mo.isForeign = true) :
    ¬ mo.Inherits := by
  intro hinherits
  unfold isForeign at h
  split at h
  case h_2 => cases h
  rename_i keyword method hevent
  split at h
  case h_2 => cases h
  rename_i parent cls id hsuper hthis
  obtain ⟨hfound, hnone⟩ := (Bool.and_eq_true _ _).mp h
  obtain ⟨found, hfound⟩ := Option.isSome_iff_exists.mp hfound
  have hrun := readSuper_of_some keyword method hsuper hthis
  rw [hfound] at hrun
  obtain ⟨parent', cls', id', hsuper', hthis', hsuffix⟩ :=
    hinherits keyword method hevent 1 _ _ hrun
  cases hsuper.symm.trans hsuper'
  cases hthis.symm.trans hthis'
  have hmem : parent.own ∈ cls.ancestors := hsuffix.subset List.mem_cons_self
  exact of_decide_eq_true hnone (List.mem_map_of_mem hmem)

/-- So it is enough to find such a moment in a story. -/
theorem Moment.exists_not_inherits {G : Type} {moments : List (Moment G)}
    (h : moments.any Moment.isForeign = true) : ∃ mo ∈ moments, ¬ mo.Inherits := by
  obtain ⟨mo, hmo, hforeign⟩ := List.any_eq_true.mp h
  exact ⟨mo, hmo, not_inherits hforeign⟩

section Inherited

variable {U : SuperUse → Prop} {mo : Moment Surroundings}

/-- Where all uses are sturdy, `super` stands for a class that the receiver's class inherits
from. -/
theorem Moment.inherits_of_sturdy (hsturdy : SuperUse.AllSturdy U) (hsound : mo.toScene.Sound U)
    (hlawful : mo.event.Lawful U mo.toScene) : mo.Inherits := by
  intro keyword method hevent fuel value m hrun
  rw [hevent] at hlawful
  have hu : U ⟨keyword, method, mo.toScene.classes⟩ := hlawful.2.supers _ List.mem_cons_self
  obtain _ | fuel := fuel
  · cases hrun
  rcases readSuper_cases mo.machine keyword method with
    ⟨parent, cls, id, hsuper, hthis⟩ | ⟨failure, hfail⟩
  · exact ⟨parent, cls, id, hsuper, hthis,
      lineage_of_sturdy hsound.seated_current hsturdy hu rfl hsuper hthis⟩
  · cases hfail.symm.trans hrun

/-- So methods are called on instances of classes that have or have inherited them. -/
theorem Moment.owns_of_sturdy (hsturdy : SuperUse.AllSturdy U) (hsound : mo.toScene.Sound U)
    (hlawful : mo.event.Lawful U mo.toScene) : mo.Owns := by
  intro fn args hevent cls id hthis
  rw [hevent] at hlawful
  have hfn : fn.Rooted U mo.toScene := hlawful.2.1
  rcases hfn.sort with ⟨-, hnone⟩ | ⟨a, ha⟩
  · cases hnone.symm.trans hthis
  cases ha.this.symm.trans hthis
  obtain ⟨outer, haround⟩ := List.head?_eq_some_iff.mp ha.around
  have hactivations := (hsound.seated hfn.present hfn.super).activations
  have hnative := (hactivations a (haround ▸ List.mem_cons_self)).native hsturdy
  exact ⟨a.own, hnative.subset List.mem_cons_self, ha.method⟩

end Inherited

/-- A program in which `super` never stands in a class without a superclass that is in a
class with one. However it is run by itself, `super` only ever finds methods of classes
that the receiver's class inherits from; so a method is never run on an instance of
another class. -/
theorem super_is_inherited {source : String}
    (h : ∀ u ∈ (Program.ofSource source).supers, u.Sturdy) (clock : Float) (sink : Sink)
    (fuel : Nat) :
    let story := (boot clock sink).begin.serve note fuel
      (.interpret (Program.ofSource source).stmts)
    story.machine = ((boot clock sink).perform (runProgram fuel (Program.ofSource source).stmts)).2 ∧
      ∀ mo ∈ story.moments, mo.Inherits ∧ mo.Owns := by
  intro story
  have hleads : (boot clock sink).begin.Leads (· ∈ (Program.ofSource source).supers) story :=
    serve_leads (begin_sound clock sink) (begin_idle clock sink) ⟨source, rfl⟩ fun _ hu => hu
  refine ⟨Story.machine_serve note _ _ _, fun mo hmo => ?_⟩
  obtain ⟨hsound, hlawful⟩ := hleads.sound.moments mo hmo
  exact ⟨Moment.inherits_of_sturdy h hsound hlawful, Moment.owns_of_sturdy h hsound hlawful⟩

/-- Two classes that use `super`, and an instance of a third that inherits from both.
Inside of a method of the first there is a class that inherits from nothing and does not
use it. -/
theorem super_is_inherited_twice :
    let source := "class A\x7bm()\x7b\x7d\x7dclass B<A\x7bm()\x7bclass N\x7b\x7dsuper.m();\x7d\x7d" ++
      "class C<B\x7bm()\x7bsuper.m();\x7d\x7dclass D<C\x7b\x7dD().m();"
    let story := (boot 0 .unlimited).begin.serve note 30
      (.interpret (Program.ofSource source).stmts)
    (∀ u ∈ (Program.ofSource source).supers, u.Sturdy) ∧
      (Program.ofSource source).supers.length = 2 ∧
      ∀ mo ∈ story.moments, mo.Inherits ∧ mo.Owns := by
  dsimp only
  suffices hsturdy : _ from ⟨hsturdy, by decide +kernel, (super_is_inherited hsturdy _ _ _).2⟩
  decide +kernel

/-- In the method of a class without a superclass `super` goes through to that of the
class around it, and binds its method to an instance of the inner class. -/
theorem super_goes_through :
    let source := "class A\x7bm()\x7b\x7d\x7dclass B<A\x7bm()\x7b" ++
      "class C\x7bm()\x7bsuper.m();\x7d\x7dC().m();\x7d\x7dB().m();"
    let story := (boot 0 .unlimited).begin.serve note 30
      (.interpret (Program.ofSource source).stmts)
    (Program.ofSource source).diagnostics = [] ∧ ∃ mo ∈ story.moments, ¬ mo.Inherits := by
  dsimp only
  exact ⟨by decide +kernel, Moment.exists_not_inherits (by decide +kernel)⟩

end Lox.Machine
