/-
`Lox.Proofs.Method.Receiver` -- a receiver never changes.

That `this` and `super` are ordinary names in their frames is safe because nothing is
ever bound next to them and nothing else is bound to them: what a frame says of these
names when it is there, it says for good. For the calls of a session this means that an
initializer gives the instance it was bound to, whatever its body returns, and that a
class gives an instance that was not there before.

A call is looked at where it begins. What holds of the machine at that moment is enough
to say what the call gives if it comes to an end, so nothing has to be known of the rest
of the story.
-/
import Lox.Proofs.Method.Session

set_option autoImplicit false

namespace Lox.Machine

open Surroundings (note)

/-! ## Calls -/

/-- The machines of a story, the latest first. -/
def Story.machines {G : Type} (w : Story G) : List Machine :=
  w.machine :: w.moments.map fun mo => mo.machine

/-- What a call gives that begins at this moment, with a bound on its depth. -/
def Moment.result? {G : Type} (mo : Moment G) (fuel : Nat) : Option Value :=
  match mo.event with
  | .calls callee args =>
    match invoke fuel callee args mo.machine with
    | .ok value _ => some value
    | .error _ _ => none
  | _ => none

/-- At this moment something is called, and this is what it gives if the bound on the
depth is large enough. -/
def Moment.Gives {G : Type} (mo : Moment G) (callee : Callee) (value : Value) : Prop :=
  (∃ args, mo.event = .calls callee args) ∧ ∃ fuel, mo.result? fuel = some value

/-- The machine says of the two names in a frame what it says of them later. -/
def Keeps (m m' : Machine) : Prop :=
  ∀ id, m.forest.Present id → m'.forest.Present id ∧
    ∀ key ∈ keywords, m'.forest.local? id key = m.forest.local? id key

/-- The function is an initializer if it is a method of the name `init` that has its
receiver, and then the receiver is the result. -/
structure InitializerGives (m : Machine) (fn : Closure) (value : Value) : Prop where
  isInitializer : fn.isInitializer = true ↔
    fn.name = "init" ∧ (m.forest.local? fn.frame "this").isSome
  receiver : fn.isInitializer = true →
    ∃ cls id, m.forest.local? fn.frame "this" = some (.instanceOf cls id) ∧
      value = .instanceOf cls id

/-- The result is an instance of the class, and none that the machine has. -/
def ClassGives (m : Machine) (cls : Class) (value : Value) : Prop :=
  ∃ id, value = .instanceOf cls id ∧ m.fields[id.index]? = none ∧
    ∀ cls' id', m.Holds (.instanceOf cls' id') → id' ≠ id

section Calls

variable {U : SuperUse → Prop} {s : Scene Surroundings} {w : Story Surroundings}
  {mo : Moment Surroundings} {value : Value}

/-- What is known of a run that is told is known of the run. -/
theorem Runs.untold {α : Type} {post : Scene Surroundings → α → Prop}
    {x : Telling Surroundings α} {y : Run α} {a : α} {m : Machine} (h : Runs U w post (x w))
    (hretells : Retells x y) (hrun : y w.machine = .ok a m) :
    ∃ s, s.machine = m ∧ s.Sound U ∧ w.toScene.Onward s ∧ post s a := by
  have hsame := hretells w
  rw [hrun] at hsame
  cases hx : x w with
  | ok a' w' =>
    rw [hx] at h hsame
    cases hsame
    exact ⟨w'.toScene, rfl, h.1.sound.scene, h.1.onward, h.2⟩
  | error halt w' =>
    rw [hx] at hsame
    cases hsame

/-- A story can begin at each moment that is in order. -/
theorem Scene.Sound.story (h : s.Sound U) (hfresh : s.Fresh) : Story.Sound U ⟨s, []⟩ :=
  ⟨h, hfresh, List.forall_mem_nil _, List.forall_mem_nil _, List.Pairwise.nil⟩

/-- What a call gives was returned by it. -/
theorem Moment.result?_eq_some {fuel : Nat} {callee : Callee} {args : List Value}
    (hevent : mo.event = .calls callee args) (h : mo.result? fuel = some value) :
    ∃ m, invoke fuel callee args mo.machine = .ok value m := by
  simp only [result?, hevent] at h
  split at h
  · rename_i hrun
    cases h
    exact ⟨_, hrun⟩
  · cases h

/-- The result of a call is rooted in what comes of it, and is what the callee gives. -/
theorem Moment.Gives.spec {callee : Callee} (h : mo.Gives callee value)
    (hsound : mo.toScene.Sound U) (hlawful : mo.event.Lawful U mo.toScene) :
    callee.Rooted U mo.toScene ∧ ∃ s, s.Sound U ∧ mo.toScene.Onward s ∧ value.Rooted U s ∧
      callee.Gives mo.toScene s value := by
  obtain ⟨⟨args, hevent⟩, fuel, hresult⟩ := h
  obtain ⟨m, hrun⟩ := mo.result?_eq_some hevent hresult
  rw [hevent] at hlawful
  obtain ⟨hfresh, hcallee, hargs⟩ := hlawful
  have hruns := (RunsAt.all fuel).invoke callee args (hsound.story hfresh) hcallee hargs
  obtain ⟨s, -, hs, honward, hvalue, hgives⟩ :=
    hruns.untold (((tell_transparent note).erasesAt fuel).invoke callee args) hrun
  exact ⟨hcallee, s, hs, honward, hvalue, hgives⟩

/-- A function is an initializer if it is a method of this name: a function that is
declared by a statement is closed over a frame without a receiver. -/
theorem Closure.Rooted.isInitializer_iff {fn : Closure} (h : fn.Rooted U s) :
    fn.isInitializer = true ↔
      fn.name = "init" ∧ (s.machine.forest.local? fn.frame "this").isSome := by
  rcases h.sort with ⟨hinit, hthis⟩ | ⟨a, ha⟩
  · simp [hinit, hthis]
  · simp [ha.isInitializer, ha.this]

/-- The run of an initializer, from a moment in order, gives what was bound as its receiver. -/
theorem Moment.Gives.initializer {fn : Closure} (h : mo.Gives (.function fn) value)
    (hsound : mo.toScene.Sound U) (hlawful : mo.event.Lawful U mo.toScene) :
    InitializerGives mo.machine fn value := by
  obtain ⟨hfn, s, hs, -, -, hgives⟩ := h.spec hsound hlawful
  refine ⟨Closure.Rooted.isInitializer_iff hfn, fun hinit => ?_⟩
  have hthis : mo.machine.forest.local? fn.frame "this" = some value := hgives hinit
  obtain ⟨frame, hframe⟩ := Forest.present_of_local? hthis
  have hbound := hthis
  rw [Forest.local?, hframe, Option.bind_some] at hbound
  obtain ⟨-, cls, id, rfl⟩ := (hsound.tidy fn.frame frame hframe).this value hbound
  exact ⟨cls, id, hthis, rfl⟩

/-- Calling a class gives an instance that no one has had before. -/
theorem Moment.Gives.instance {cls : Class} (h : mo.Gives (.classRef cls) value)
    (hsound : mo.toScene.Sound U) (hlawful : mo.event.Lawful U mo.toScene) :
    ClassGives mo.machine cls value := by
  obtain ⟨-, s, -, -, -, rfl, -⟩ := h.spec hsound hlawful
  refine ⟨_, rfl, Array.getElem?_eq_none (Nat.le_refl _), fun cls' id' hheld => ?_⟩
  rintro rfl
  exact Nat.lt_irrefl _ (hsound.values _ hheld).2

end Calls

/-! ## Sessions -/

section Sessions

variable {U : SuperUse → Prop} {w : Story Surroundings}

/-- What the story of a session is, in which the host defines neither of the two
names. -/
theorem Story.Sound.keeps (h : w.Sound U) :
    w.machines.Pairwise fun later earlier => earlier.Keeps later := by
  have hkeeps : ∀ {s s' : Scene Surroundings}, s.Onward s' → s.machine.Keeps s'.machine :=
    fun honward id hid => ⟨honward.present hid, honward.bound hid⟩
  refine List.pairwise_cons.mpr ⟨?_, List.pairwise_map.mpr ?_⟩
  · refine List.forall_mem_map.mpr fun mo hmo => ?_
    exact hkeeps (h.before mo hmo).onward
  · exact h.order.imp fun hbefore => hkeeps hbefore.onward

/-- In a story in order all frames are tidy at all moments. -/
theorem Story.Sound.tidy (h : w.Sound U) :
    ∀ m ∈ w.machines, ∀ id frame, m.forest.frame? id = some frame → frame.Tidy := by
  refine List.forall_mem_cons.mpr ⟨h.scene.tidy, List.forall_mem_map.mpr fun mo hmo => ?_⟩
  exact (h.moments mo hmo).1.tidy

/-- Of two calls of classes the later one gives another instance. -/
theorem Story.Sound.distinct (h : w.Sound U) :
    w.moments.Pairwise fun later earlier => ∀ cls cls' value value',
      earlier.Gives (.classRef cls) value → later.Gives (.classRef cls') value' →
      value.equals value' = false := by
  refine h.order.imp_of_mem fun {later earlier} hlater hearlier hbefore => ?_
  intro cls cls' value value' hvalue hvalue'
  have hspec := h.moments earlier hearlier
  have hspec' := h.moments later hlater
  obtain ⟨-, s, -, -, -, rfl, -⟩ := hvalue.spec hspec.1 hspec.2
  obtain ⟨-, s', -, -, -, rfl, -⟩ := hvalue'.spec hspec'.1 hspec'.2
  obtain ⟨⟨args, hevent⟩, -⟩ := hvalue
  have hsize := hbefore.created (by rw [hevent]; trivial)
  refine beq_eq_false_iff_ne.mpr fun heq => ?_
  exact Nat.ne_of_lt hsize (congrArg InstanceId.index heq)

/-- `this` and initializers, in a session of texts in which the host defines neither
`this` nor `super`. In all machines that there are on the way a frame with a receiver
or a superclass binds nothing else, and what it binds stays what it was. A call of a
method `init`, by whatever way it has come to be called, gives the instance that the
method is bound to if it gives anything; and the call of a class gives a new instance
of this class, which no other call gives. -/
theorem receivers_never_change {clock : Float} {sink : Sink} {session : List (Nat × Request)}
    (h : (boot clock sink).Ordinary session) :
    let story := (boot clock sink).begin.serveAll note session
    story.machine = (boot clock sink).serveAll session ∧
    (∀ m ∈ story.machines, ∀ id frame, m.forest.frame? id = some frame → frame.Tidy) ∧
    (story.machines.Pairwise fun later earlier => earlier.Keeps later) ∧
    (∀ mo ∈ story.moments, ∀ fn value, mo.Gives (.function fn) value →
      InitializerGives mo.machine fn value) ∧
    (∀ mo ∈ story.moments, ∀ cls value, mo.Gives (.classRef cls) value →
      ClassGives mo.machine cls value) ∧
    (story.moments.Pairwise fun later earlier => ∀ cls cls' value value',
      earlier.Gives (.classRef cls) value → later.Gives (.classRef cls') value' →
      value.equals value' = false) := by
  intro story
  have hsound : story.Sound (· ∈ supersOf session) :=
    (serveAll_leads (begin_sound clock sink) (begin_idle clock sink) h fun _ hu => hu).sound
  refine ⟨Story.machine_serveAll note _ _, hsound.tidy, hsound.keeps, ?_, ?_, hsound.distinct⟩
  · intro mo hmo fn value hvalue
    exact hvalue.initializer (hsound.moments mo hmo).1 (hsound.moments mo hmo).2
  · intro mo hmo cls value hvalue
    exact hvalue.instance (hsound.moments mo hmo).1 (hsound.moments mo hmo).2

/-- An initializer that returns early is inherited by a class, and called as `super.init`
by that of another one. In a later text this one is called again, as a method, and by a
name that it was stored under and a function of the host that hands its argument back. -/
theorem receivers_never_change_initializers :
    let first := "class A\x7binit(x)\x7bif(x)return;\x7d\x7dclass B<A\x7b\x7d" ++
      "class C<B\x7binit()\x7bsuper.init(this);\x7d\x7dvar c=C();B(nil);"
    let second := "c.init();var f=c.init;id(f)();"
    let session : List (Nat × Request) :=
      [(20, .interpret (Program.ofSource first).stmts), (0, .define globals "ready" (.bool true)),
        (0, .defineHost "id" 1 fun args => .ok (args.headD .nil)),
        (20, .interpret (Program.ofSource second).stmts)]
    let story := (boot 0 .unlimited).begin.serveAll note session
    (boot 0 .unlimited).Ordinary session ∧
      (story.moments.reverse.filterMap fun mo => mo.result? 20).map Value.display =
        ["C instance", "C instance", "C instance", "B instance", "B instance", "C instance",
          "C instance", "<fn init>", "C instance", "C instance"] ∧
      (∀ mo ∈ story.moments, ∀ fn value, mo.Gives (.function fn) value →
        InitializerGives mo.machine fn value) ∧
      ∀ mo ∈ story.moments, ∀ cls value, mo.Gives (.classRef cls) value →
        ClassGives mo.machine cls value := by
  dsimp only
  have hbody : ∀ (args : List Value) (value : Value),
      Except.ok (args.headD .nil) = (Except.ok value : Except String Value) →
      value ∈ args ∨ value.Plain := by
    rintro (_ | ⟨arg, args⟩) value ⟨⟩
    · exact .inr trivial
    · exact .inl List.mem_cons_self
  suffices hordinary : _ from
    have hspec := receivers_never_change hordinary
    ⟨hordinary, by decide +kernel, hspec.2.2.2.1, hspec.2.2.2.2.1⟩
  exact ⟨⟨_, rfl⟩, ⟨rfl, by decide, .inl trivial⟩,
    ⟨by decide, fun args value hvalue => (hbody args value hvalue).imp_right .inl⟩,
    ⟨_, rfl⟩, trivial⟩

end Sessions

end Lox.Machine
