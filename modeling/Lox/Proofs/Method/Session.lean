/-
`Lox.Proofs.Method.Session` -- sessions of texts.

A host that works with texts has statements run that were read from a text, with or
without mistakes in it, and calls what it has got hold of. In between it may define
names, other than `this` and `super`, as values of its own or ones that the machine has,
and functions that return such values or what they were given. Frames of its own, in
which it could bind any name, it does not ask for. All work is then done in the global
frame, around which there is no activation, and one piece of work leads to the next.
-/
import Lox.Proofs.Method.Run

set_option autoImplicit false

namespace Lox.Machine

open Surroundings (note)

/-! ## Requests -/

/-- A value that the host can have: it made it itself, or the machine has it. -/
def Offers (m : Machine) (value : Value) : Prop :=
  value.Plain ∨ m.Holds value

/-- What is run in a request. -/
def Request.stmts : Request → List Stmt
  | .interpret stmts => stmts
  | .execute stmt => [stmt]
  | .evaluate expr => [.expression expr]
  | _ => []

/-- The request is one of a host that works with texts. Left out is what only a host can do
that builds its own pieces: to run trees that no text is read as, to run statements in a frame
of its choice or to have a frame made for that (`executeIn`, `frameInside`), to define names in
other frames than the global one, and to call or hand in values that neither it has made nor
the machine holds. -/
def Request.Ordinary (m : Machine) : Request → Prop
  | .interpret stmts => ∃ source, stmts = (Program.ofSource source).stmts
  | .execute stmt => ∃ source, stmt ∈ (Program.ofSource source).stmts
  | .evaluate expr => ∃ source, .expression expr ∈ (Program.ofSource source).stmts
  | .invoke callee args =>
    (∃ value, m.Offers value ∧ Callee.ofValue? value = some callee) ∧ ∀ arg ∈ args, m.Offers arg
  | .define frame name value => frame = globals ∧ name ∉ keywords ∧ m.Offers value
  | .defineHost name _ body =>
    name ∉ keywords ∧ ∀ args value, body args = .ok value → value ∈ args ∨ m.Offers value
  | .takeOutput => True
  | .executeIn _ _ | .frameInside _ => False

/-- All requests of the session are such ones. What the host can have is to be seen only
when it makes the request. -/
def Ordinary (m : Machine) : List (Nat × Request) → Prop
  | [] => True
  | (fuel, request) :: rest => request.Ordinary m ∧ (m.serve fuel request).Ordinary rest

/-- The uses of `super` in what is run. -/
def Request.supers (request : Request) : List SuperUse :=
  Stmt.supersEach [] request.stmts

/-- The uses of `super` in all that is run in a session. -/
def supersOf (session : List (Nat × Request)) : List SuperUse :=
  session.flatMap fun step => step.2.supers

/-- The story of a machine that nothing has been told of. -/
def begin (m : Machine) : Story Surroundings :=
  ⟨⟨m, .start⟩, []⟩

variable {U : SuperUse → Prop} {w : Story Surroundings} {s : Scene Surroundings}

/-! ## Serving -/

/-- What a host can have is rooted. -/
theorem Scene.Sound.offers {value : Value} (h : s.Sound U) (hvalue : s.machine.Offers value) :
    value.Rooted U s :=
  hvalue.elim Value.Plain.rooted (h.values value)

/-- What is run is a piece of a text. -/
theorem Request.Ordinary.lawful {m : Machine} {request : Request} (h : request.Ordinary m)
    (hsupers : ∀ u ∈ request.supers, U u) : Stmt.AllLawful U [] request.stmts := by
  refine ⟨?_, hsupers⟩
  cases request with
  | interpret stmts =>
    obtain ⟨source, rfl⟩ := h
    exact Program.ofSource_formed source
  | execute stmt =>
    obtain ⟨source, hmem⟩ := h
    exact ⟨(Program.ofSource_formed source).of_mem hmem, trivial⟩
  | evaluate expr =>
    obtain ⟨source, hmem⟩ := h
    exact ⟨(Program.ofSource_formed source).of_mem hmem, trivial⟩
  | _ => trivial

/-- However a run ends, its story leads on. -/
theorem Runs.leads {α : Type} {post : Scene Surroundings → α → Prop}
    {result : EStateM.Result Halt (Story Surroundings) α} (h : Runs U w post result) :
    w.Leads U (storyOf result) := by
  cases result with
  | ok a w' => exact h.1
  | error halt w' => exact h

/-- One more function of the host, under a name that is not reserved. -/
theorem Scene.Sound.defineHost {name : String} {arity : Nat} {body : HostBody} (h : s.Sound U)
    (hcurrent : s.machine.current = globals) (hname : name ∉ keywords)
    (hbody : ∀ args value, body args = .ok value → value ∈ args ∨ value.Rooted U s) :
    s.Leads U (s.move (s.machine.defineHost name arity body)) := by
  have honward : s.Onward (s.move { s.machine with hosts := s.machine.hosts.push body }) :=
    ⟨id, fun _ _ _ => rfl, fun _ _ _ => rfl, fun _ => rfl, id, Nat.le_refl _, Nat.le_refl _⟩
  have hpushed : s.Leads U (s.move { s.machine with hosts := s.machine.hosts.push body }) := by
    refine ⟨⟨h.tidy, h.closed, fun hid hsuper => (h.seated hid hsuper).onward hid honward,
      h.executions, fun value hvalue => ?_, fun i other hother args value hresult => ?_,
      h.present, h.plain⟩, honward, rfl⟩
    · have hheld : s.machine.Holds value := by
        cases hvalue with
        | name hlocal => exact .name hlocal
        | field hfields hfind => exact .field hfields hfind
      exact (h.values value hheld).onward honward
    · replace hother : (s.machine.hosts.push body)[i]? = some other := hother
      rw [Array.getElem?_push] at hother
      split at hother
      · cases hother
        exact (hbody args value hresult).imp_right (·.onward honward)
      · exact (h.hosts i other hother args value hresult).imp_right (·.onward honward)
  have hplain : ∀ key ∈ keywords, s.machine.forest.local? globals key = none := hcurrent ▸ h.plain
  have hvalue : (Value.host ⟨s.machine.hosts.size, name, arity⟩).Rooted U
      (s.move { s.machine with hosts := s.machine.hosts.push body }) := trivial
  exact hpushed.trans (hpushed.sound.define hname hplain hvalue)

/-- Work in the global frame, around which there is no activation. -/
structure Story.Idle (w : Story Surroundings) : Prop where
  current : w.machine.current = globals
  around : w.account.around globals = []

/-- Around work in the global frame there are no classes. -/
theorem Story.Idle.classes (h : w.Idle) : w.toScene.classes = [] := by
  rw [Scene.classes, h.current, h.around]
  rfl

/-- Work that leads on in the global frame stays there. -/
theorem Story.Idle.leads {w' : Story Surroundings} (h : w.Idle) (hw : w.Sound U)
    (hleads : w.Leads U w') : w'.Idle := by
  have hpresent := hw.scene.present
  rw [h.current] at hpresent
  exact ⟨hleads.current.trans h.current, (hleads.onward.around hpresent).trans h.around⟩

/-- A request that is served leads on. -/
theorem serve_leads {fuel : Nat} {request : Request} (hw : w.Sound U) (hidle : w.Idle)
    (h : request.Ordinary w.machine) (hsupers : ∀ u ∈ request.supers, U u) :
    w.Leads U (w.serve note fuel request) := by
  have hlawful := h.lawful hsupers
  rw [← hidle.classes] at hlawful
  cases request with
  | interpret stmts => exact (runProgram_runs fuel hw hlawful).leads
  | execute stmt =>
    refine ((RunsAt.all fuel).execute stmt hw ⟨hlawful.formed.1, fun u hu => ?_⟩).leads
    exact hlawful.supers u (Stmt.mem_supersEach List.mem_cons_self hu)
  | evaluate expr =>
    refine ((RunsAt.all fuel).evaluate expr hw (.of_supers hlawful.formed.1 fun u hu => ?_)).leads
    have hstmt : u ∈ (Stmt.expression expr).supers w.toScene.classes := hu
    exact hlawful.supers u (Stmt.mem_supersEach List.mem_cons_self hstmt)
  | invoke callee args =>
    obtain ⟨⟨value, hvalue, hcallee⟩, hargs⟩ := h
    refine ((RunsAt.all fuel).invoke callee args hw ?_ fun arg harg => ?_).leads
    · exact Callee.ofValue?_rooted hcallee (hw.scene.offers hvalue)
    · exact hw.scene.offers (hargs arg harg)
  | define frame name value =>
    obtain ⟨rfl, hname, hvalue⟩ := h
    exact (Runs.tacit hw (define_steps hw.scene hname (hidle.current ▸ hw.scene.plain)
      (hw.scene.offers hvalue))).leads
  | defineHost name arity body =>
    have hbody : ∀ args value, body args = .ok value → value ∈ args ∨ value.Rooted U w.toScene :=
      fun args value hresult => (h.2 args value hresult).imp_right hw.scene.offers
    exact hw.on (hw.scene.defineHost hidle.current h.1 hbody) hw.fresh trivial id rfl
  | takeOutput =>
    exact hw.on (hw.scene.congr rfl rfl rfl rfl (Nat.le_refl _)) hw.fresh trivial id rfl
  | executeIn frame stmts => exact h.elim
  | frameInside parent => exact h.elim

/-- Of a session all requests are served. -/
theorem serveAll_leads {session : List (Nat × Request)} (hw : w.Sound U) (hidle : w.Idle)
    (h : w.machine.Ordinary session) (hsupers : ∀ u ∈ supersOf session, U u) :
    w.Leads U (w.serveAll note session) := by
  induction session generalizing w with
  | nil => exact hw.leads
  | cons step rest ih =>
    obtain ⟨hfirst, hrest⟩ := List.forall_mem_append.mp hsupers
    have hleads : w.Leads U (w.serve note step.1 step.2) := serve_leads hw hidle h.1 hfirst
    have hordinary := h.2
    rw [← Story.machine_serve note] at hordinary
    exact hleads.trans (ih hleads.sound (hidle.leads hw hleads) hordinary hrest)

/-! ## Beginning -/

/-- A single frame that binds nothing. -/
theorem blank_sound (sink : Sink) : Scene.Sound U ⟨blank sink, .start⟩ := by
  have hlocal : ∀ id name, (blank sink).forest.local? id name = none :=
    fun _ _ => Forest.local?_addRoot_empty
  have hframe : ∀ id frame, (blank sink).forest.frame? id = some frame →
      frame = ⟨.empty, []⟩ := by
    intro id frame hframe
    exact (List.mem_singleton.mp (Array.mem_toList_iff.mpr (Array.mem_of_getElem? hframe)))
  have hlookup : ∀ id name, (blank sink).forest.lookup id name = none :=
    fun id name => List.findSome?_eq_none_iff.mpr fun key _ => hlocal key name
  refine ⟨fun id frame hid => ?_, fun id frame hid outer houter => ?_, fun {id} _ _ => ?_,
    (fun _ _ he => by cases he), fun value hvalue => ?_, fun i body hbody => ?_, ⟨_, rfl⟩,
    fun key _ => hlocal _ key⟩
  · rw [hframe id frame hid]
    exact Frame.tidy_of_none fun _ _ => rfl
  · rw [hframe id frame hid] at houter
    cases houter
  · exact ⟨hlookup id "this", hlookup id "super", fun _ _ haround => (by cases haround),
      List.forall_mem_nil _⟩
  · cases hvalue with
    | name hname => cases (hlocal _ _).symm.trans hname
    | field hfields _ => cases hfields
  · cases hbody

/-- In a machine as every program finds it everything is in order: its only function is
one of the host. -/
theorem begin_sound (clock : Float) (sink : Sink) : (boot clock sink).begin.Sound U := by
  have hclock : ∀ (args : List Value) (value : Value),
      Except.ok (Value.number clock) = (Except.ok value : Except String Value) →
      value ∈ args ∨ value.Rooted U ⟨blank sink, .start⟩ := by
    rintro args value ⟨⟩
    exact .inr trivial
  have hname : "clock" ∉ keywords := by decide
  have hleads : Scene.Leads U ⟨blank sink, .start⟩ ⟨boot clock sink, .start⟩ :=
    (blank_sound sink).defineHost rfl hname hclock
  exact ⟨hleads.sound, (fun _ _ he => by cases he), List.forall_mem_nil _, List.forall_mem_nil _,
    List.Pairwise.nil⟩

/-- A machine that was booted is in the global frame. -/
theorem begin_idle (clock : Float) (sink : Sink) : (boot clock sink).begin.Idle :=
  ⟨rfl, rfl⟩

end Lox.Machine
