/-
`Lox.Proofs.Inheritance.Session` -- classes in all states that a machine comes to.

A host may have anything run, in any order, and may use the classes that it got to know in
the meantime: those that the machine had at an earlier moment, and those that they inherit
from (`Story.Knows`). It only makes none by itself (`Request.Honest`). Then at all moments of
all its sessions the current frame exists, so that classes can be declared, and what any
class inherits from comes to an end (`Class.Grounded`).
-/
import Lox.Proofs.Inheritance.Declaration
import Lox.Proofs.Inheritance.Run

set_option autoImplicit false

namespace Lox.Machine

section Sessions

variable {G : Type} {note : Event → Machine → G → G} {w : Story G} {cls : Class}

/-! ## Requests -/

/-- The class was there at an earlier moment, or one was that inherits from it. -/
def Story.Knows (w : Story G) (cls : Class) : Prop :=
  ∃ mo ∈ w.moments, ∃ known, mo.Has known ∧ cls.lineage <:+ known.lineage

/-- The host makes up no classes and no frames. -/
def Request.Honest (w : Story G) : Request → Prop
  | .executeIn frame _ => w.machine.forest.Present frame
  | .invoke callee args =>
    (∀ cls, callee = .classRef cls → w.Knows cls) ∧
      ∀ arg ∈ args, ∀ cls ∈ arg.class?, w.Knows cls
  | .define _ _ value => ∀ cls ∈ value.class?, w.Knows cls
  | .defineHost _ _ body =>
    ∀ args value, body args = .ok value → ∀ cls ∈ value.class?,
      (∃ arg ∈ args, ∃ given ∈ arg.class?, cls.lineage <:+ given.lineage) ∨ w.Knows cls
  | .interpret _ | .execute _ | .evaluate _ | .frameInside _ | .takeOutput => True

/-- All requests of the session are such ones. What the host knows is to be seen only when it
makes the request. -/
def Story.Honest (note : Event → Machine → G → G) (w : Story G) : List (Nat × Request) → Prop
  | [] => True
  | (fuel, request) :: rest => request.Honest w ∧ Honest note (w.serve note fuel request) rest

/-! ## Serving -/

/-- What the host knows has been there, or is inherited from by what has been, so it descends.
-/
theorem Story.Descending.knows (hw : w.Descending) (h : w.Knows cls) :
    cls.Descends w.machine.nextSerial := by
  obtain ⟨mo, hmo, known, hknown, hsuffix⟩ := h
  obtain ⟨hdescending, hserial⟩ := hw.moments mo hmo
  exact ((hdescending.has hknown).of_suffix hsuffix).mono hserial

/-- However a run ends, the story has only been told on. -/
theorem Story.Descent.advances {α : Type} {post : Machine → α → Prop}
    {result : EStateM.Result Halt (Story G) α} (h : w.Descent post result) :
    w.Advances (storyOf result) := by
  cases result with
  | ok a w' => exact h.1
  | error halt w' => exact h

/-- One more function of the host. -/
theorem Descending.defineHost {m : Machine} {name : String} {arity : Nat} {body : HostBody}
    (h : m.Descending) (hbody : HostBody.Descends m body) :
    m.Advances (m.defineHost name arity body) := by
  have hpushed : Descending { m with hosts := m.hosts.push body } := by
    refine ⟨h.current, fun value hvalue => h.values value ?_, fun i other hother => ?_⟩
    · cases hvalue with
      | name hlocal => exact .name hlocal
      | field hfields hfind => exact .field hfields hfind
    · replace hother : (m.hosts.push body)[i]? = some other := hother
      rw [Array.getElem?_push] at hother
      split at hother
      · cases hother
        exact hbody
      · exact h.hosts i other hother
  have hnone : (Value.host ⟨m.hosts.size, name, arity⟩).class? = none := rfl
  have hdefined : Advances { m with hosts := m.hosts.push body } (m.defineHost name arity body) :=
    hpushed.define (.of_none hnone)
  obtain ⟨hdescending, hpresent, -, -⟩ := hdefined
  exact ⟨hdescending, hpresent, rfl, Nat.le_refl _⟩

/-- A request that is served leads on. -/
theorem Request.Honest.advances {request : Request} (h : request.Honest w) (hw : w.Descending)
    (fuel : Nat) : w.Advances (w.serve note fuel request) := by
  have hall : DescentAt note fuel := .all fuel
  cases request with
  | interpret stmts => exact (runProgram_descent fuel stmts hw).advances
  | execute stmt => exact (hall.execute stmt hw).advances
  | executeIn frame stmts =>
    exact (Story.Descent.within hw h (fun _ _ ha => ha)
      fun _ hw' => hall.executeEach stmts hw').advances
  | evaluate expr => exact (hall.evaluate expr hw).advances
  | invoke callee args =>
    refine (hall.invoke callee args hw ?_ fun arg harg cls hcls => ?_).advances
    · cases callee with
      | classRef cls => exact hw.knows (h.1 cls rfl)
      | function fn => trivial
      | host fn => trivial
    · exact hw.knows (h.2 arg harg cls hcls)
  | frameInside parent =>
    exact (Story.Descent.tell hw (fun _ hnamed => by cases hnamed) fun _ _ hw' =>
      .tacit hw' (newFrame_descent hw'.machine parent)).advances
  | define frame name value =>
    have hdefine : w.machine.Descent (fun _ (_ : Unit) => True)
        (Machine.define frame name value w.machine) :=
      ⟨hw.machine.define fun cls hcls => hw.knows (h cls hcls), trivial⟩
    exact (Story.Descent.tacit hw hdefine).advances
  | defineHost name arity body =>
    refine hw.on (hw.machine.defineHost fun args value hresult cls hcls => ?_)
      fun _ hnamed => by cases hnamed
    exact (h args value hresult cls hcls).imp_right hw.knows
  | takeOutput =>
    exact hw.on (hw.machine.congr rfl rfl rfl rfl (Nat.le_refl _)) fun _ hnamed => by cases hnamed

/-- Of a session all requests are served. -/
theorem Story.Honest.descending {session : List (Nat × Request)} (h : w.Honest note session)
    (hw : w.Descending) : (w.serveAll note session).Descending := by
  induction session generalizing w with
  | nil => exact hw
  | cons step rest ih => exact ih h.2 (h.1.advances hw step.1).descending

end Sessions

/-! ## Beginning -/

/-- In a machine as every program finds it there are no classes. -/
theorem boot_descending (clock : Float) (sink : Sink) : (boot clock sink).Descending := by
  have hblank : (blank sink).Descending := by
    refine ⟨⟨_, rfl⟩, fun value hvalue => ?_, fun i body hbody => by cases hbody⟩
    cases hvalue with
    | name hname => cases hname.symm.trans Forest.local?_addRoot_empty
    | field hfields _ => cases hfields
  refine (hblank.defineHost fun args value hresult cls hcls => ?_).descending
  cases hresult
  cases hcls

/-- The story of a machine, before anything is told. -/
def Story.start (m : Machine) : Story Unit :=
  ⟨⟨m, ()⟩, []⟩

/-- No account is kept besides the moments. -/
def Story.unnoted : Event → Machine → Unit → Unit :=
  fun _ _ _ => ()

/-- A session of an honest host, from the beginning. -/
def HonestSession (clock : Float) (sink : Sink) (session : List (Nat × Request)) : Prop :=
  (Story.start (boot clock sink)).Honest Story.unnoted session

/-- All that happens in a session. -/
def momentsOf (clock : Float) (sink : Sink) (session : List (Nat × Request)) :
    List (Moment Unit) :=
  ((Story.start (boot clock sink)).serveAll Story.unnoted session).moments

/-- In a session of an honest host all classes descend. -/
theorem HonestSession.descending {clock : Float} {sink : Sink} {session : List (Nat × Request)}
    (h : HonestSession clock sink session) :
    ((Story.start (boot clock sink)).serveAll Story.unnoted session).Descending :=
  Story.Honest.descending h ⟨boot_descending clock sink, List.forall_mem_nil _⟩

/-! ## Declarations of classes -/

/-- **Declarations of classes.** A declaration either fails and leaves the machine alone, or
it binds one name in the current frame, to a new class that has the methods it should. This
holds in every machine whose current frame exists, and all machines that a session comes to
are such ones. What a class inherits from comes to an end, so that every search for a method
does, and for the classes that are there at any moment of a session it is known when. -/
theorem class_declarations :
    (∀ (m : Machine) (decl : ClassDecl) (fuel : Nat), m.forest.Present m.current →
      (∀ superclass ∈ decl.superclass, ∃ name, superclass = .variable name) →
      ClassOutcome m decl (execute (fuel + 2) (.classDecl decl) m)) ∧
    (∀ cls : Class, ∃ steps, cls.ancestor? steps = none ∧
      ∀ name, Class.search? steps cls name = some (cls.findMethod? name)) ∧
    (∀ (clock : Float) (sink : Sink) (session : List (Nat × Request)),
      HonestSession clock sink session →
      (∀ mo ∈ momentsOf clock sink session, mo.machine.forest.Present mo.machine.current ∧
        ∀ cls, mo.Has cls → cls.Grounded mo.machine.nextSerial) ∧
      let m := (boot clock sink).serveAll session
      m.forest.Present m.current ∧ ∀ cls, m.HasClass cls → cls.Grounded m.nextSerial) := by
  refine ⟨fun m decl fuel hcurrent hsuperclass => ?_, fun cls => ?_,
    fun clock sink session hsession => ?_⟩
  · exact execute_classDecl_outcome hcurrent hsuperclass fuel
  · exact ⟨cls.lineage.length, cls.ancestor?_length, Class.search?_eq (Nat.le_refl _)⟩
  · have hstory := hsession.descending
    have hlast := hstory.machine
    rw [Story.machine_serveAll] at hlast
    refine ⟨fun mo hmo => ?_, hlast.current, fun cls hcls => (hlast.hasClass hcls).grounded⟩
    obtain ⟨hmoment, -⟩ := hstory.moments mo hmo
    exact ⟨hmoment.machine.current, fun cls hcls => (hmoment.has hcls).grounded⟩

/-- A class that inherits from one of its own name. Where nothing has this name the declaration
fails, and in a block inside of the frame that binds it a second class comes about. -/
theorem class_declarations_shadowing :
    let name := Token.madeUp .identifier "A" 1
    let outer : ClassDecl := ⟨name, none, [⟨.madeUp .identifier "init" 1, [], []⟩]⟩
    let inner : ClassDecl := ⟨name, some (.variable name), []⟩
    let session : List (Nat × Request) := [(9, .executeIn globals [.classDecl inner]),
      (9, .execute (.classDecl outer)), (9, .define globals "greeting" (.text "hello")),
      (9, .interpret [.block [.classDecl inner, .expression (.call (.variable name) name [])]])]
    let booted := boot 1 .unlimited
    booted.forest.Present booted.current ∧
      (∀ superclass ∈ inner.superclass, ∃ name, superclass = .variable name) ∧
      ClassOutcome booted inner (execute 2 (.classDecl inner) booted) ∧
      HonestSession 1 .unlimited session ∧
      ∀ cls, (booted.serveAll session).HasClass cls →
        cls.Grounded (booted.serveAll session).nextSerial := by
  intro name outer inner session booted
  have hcurrent : booted.forest.Present booted.current := ⟨_, rfl⟩
  have hsuperclass : ∀ superclass ∈ inner.superclass, ∃ name, superclass = .variable name := by
    rintro _ ⟨⟩
    exact ⟨name, rfl⟩
  have hsession : HonestSession 1 .unlimited session :=
    ⟨⟨_, rfl⟩, trivial, (fun _ hcls => by cases hcls), trivial, trivial⟩
  exact ⟨hcurrent, hsuperclass, class_declarations.1 booted inner 0 hcurrent hsuperclass, hsession,
    (class_declarations.2.2 1 .unlimited session hsession).2.2⟩

end Lox.Machine
