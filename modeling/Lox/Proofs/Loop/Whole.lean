/-
`Lox.Proofs.Loop.Whole` -- machines in which nothing is missing.

A machine can be put together by hand so that something in it refers to a frame that was
never made. No machine comes to be in such a state by what can be asked of it, and that it
is in none can be said with what relates two machines: each frame stands for itself, and
the machine matches itself (`Machine.Whole`). A run that keeps in step with itself
therefore leaves a machine in which nothing is missing.

What a host asks for must itself refer to frames that there are (`Request.Fits`), and so
must what its functions return.
-/
import Mathlib.Data.List.Find
import Lox.Machine.Session
import Lox.Proofs.Loop.Run

set_option autoImplicit false

namespace Lox

/-! ## Frames that stand for themselves -/

/-- Each of so many frames stands for itself. -/
def Images.self (size : Nat) : Images :=
  (List.range size).map fun index => ⟨⟨index⟩, false⟩

namespace Images

variable {w : Images} {size : Nat} {id id' : FrameId}

/-- Each frame up to the size stands for itself. -/
theorem getElem?_self {index : Nat} {image : Image} :
    (self size)[index]? = some image ↔ index < size ∧ image = ⟨⟨index⟩, false⟩ := by
  rw [self, List.getElem?_map, Option.map_eq_some_iff]
  constructor
  · rintro ⟨_, hindex, rfl⟩
    obtain ⟨hlt, rfl⟩ := List.getElem?_eq_some_iff.mp hindex
    rw [List.length_range] at hlt
    rw [List.getElem_range]
    exact ⟨hlt, rfl⟩
  · rintro ⟨hlt, rfl⟩
    exact ⟨index, List.getElem?_range hlt, rfl⟩

/-- It is its own partner. -/
theorem self_pairs (h : id.index < size) : (self size).Pairs id id :=
  getElem?_self.mpr ⟨h, rfl⟩

/-- It has no other. -/
theorem eq_of_self_pairs (h : (self size).Pairs id id') : id.index < size ∧ id = id' := by
  obtain ⟨hlt, himage⟩ := getElem?_self.mp h
  cases himage
  exact ⟨hlt, rfl⟩

/-- It stands for no other. -/
theorem eq_of_self_standsFor (h : (self size).StandsFor id id') : id.index < size ∧ id = id' := by
  obtain ⟨image, himage, rfl⟩ := h
  obtain ⟨hlt, rfl⟩ := getElem?_self.mp himage
  exact ⟨hlt, rfl⟩

/-- No frame is without a partner. -/
theorem not_self_extra : ¬ (self size).Extra id := by
  rintro ⟨id', hid⟩
  cases (getElem?_self.mp hid).2

/-- If there are as many partners as frames, each has one. -/
theorem eq_self (hlength : w.length = size)
    (hpartners : w.partners = (List.range size).map FrameId.mk) : w = self size := by
  have hall : ∀ image ∈ w, image.extra = false := by
    have hlengths : w.partners.length = w.length := by
      rw [hpartners, List.length_map, List.length_range, hlength]
    intro image himage
    have hsome := List.filterMap_length_eq_length.mp hlengths image himage
    cases hextra : image.extra with
    | false => rfl
    | true =>
      rw [hextra] at hsome
      cases hsome
  -- so the row of partners says what the images are
  have hback : w.partners.map (fun frame => (⟨frame, false⟩ : Image)) = w := by
    rw [partners, List.map_filterMap]
    refine (List.filterMap_congr fun image himage => ?_).trans List.filterMap_some
    obtain ⟨frame, extra⟩ := image
    obtain rfl : extra = false := hall _ himage
    rfl
  rw [← hback, hpartners, List.map_map]
  rfl

/-- All frames of a chain stand for something. -/
theorem Chained.standsFor {ids ids' : List FrameId} (h : w.Chained ids ids') :
    ∀ id ∈ ids, ∃ id', w.StandsFor id id' := by
  induction h with
  | nil => exact fun _ hid => by cases hid
  | paired hpairs _ ih => exact List.forall_mem_cons.mpr ⟨⟨_, hpairs.standsFor⟩, ih⟩
  | extra hextra _ ih => exact List.forall_mem_cons.mpr ⟨hextra.standsFor, ih⟩

end Images

namespace Forest

variable {α : Type} {f f' : Forest α} {id : FrameId}

/-- A frame of the forest is its own partner. -/
theorem Present.self_pairs (h : f.Present id) : (Images.self f.frames.size).Pairs id id :=
  Images.self_pairs (present_iff.mp h)

/-- Where nothing is bound, names are found in the frames in which they were found. -/
theorem Grows.owner?_eq (h : f.Grows (fun _ _ => False) f')
    (hchain : ∀ key ∈ f.chain id, f.Present key) (name : String) :
    f'.owner? id name = f.owner? id name := by
  have hsame : ∀ key ∈ f.chain id, (f'.local? key name).isSome = (f.local? key name).isSome := by
    intro key hkey
    obtain ⟨frame, hframe⟩ := hchain key hkey
    rw [Bool.eq_iff_iff]
    exact ⟨fun hbound => (h.local?_cases hframe hbound).resolve_right not_false, h.local?⟩
  obtain ⟨frame, hframe⟩ := hchain id List.mem_cons_self
  rw [owner?, h.chain hframe]
  exact List.find?_congr hsame

end Forest

namespace Machine

variable {m : Machine}

/-- Whatever is in the machine refers to frames that it has. Its functions of the host are
handed values, but do not look at the frames that these refer to, and what they return
refers to frames of the machine again. -/
structure Whole (m : Machine) : Prop where
  itself : m.Matches (.self m.forest.frames.size) m.current m.current m
  current : m.forest.Present m.current

/-- The value refers to frames of the machine only. -/
def Covers (m : Machine) (value : Value) : Prop :=
  value.Matches (.self m.forest.frames.size) value

namespace Whole

/-- A machine that matches itself does so in one way only. -/
theorem of_matches {w : Images} {c : FrameId} (h : m.Matches w c c m) (hc : m.forest.Present c) :
    m.Whole := by
  obtain rfl := Images.eq_self h.forest.size h.forest.partners
  obtain rfl := h.current
  exact ⟨h, hc⟩

theorem pairs_current (h : m.Whole) :
    (Images.self m.forest.frames.size).Pairs m.current m.current :=
  h.current.self_pairs

/-- The frames around the current one are there. -/
theorem chain_present (h : m.Whole) : ∀ id ∈ m.forest.chain m.current, m.forest.Present id := by
  intro id hid
  have hchained := h.itself.forest.chain _ _ h.pairs_current.standsFor
  obtain ⟨_, hstands⟩ := hchained.standsFor id hid
  exact h.itself.forest.present_of_standsFor hstands

theorem globals_present (h : m.Whole) : m.forest.Present globals :=
  Forest.present_iff.mpr (Nat.zero_lt_of_lt (Forest.present_iff.mp h.current))

/-- Any frame that is there may be the current one. -/
theorem inFrame (h : m.Whole) {id : FrameId} (hid : m.forest.Present id) :
    Whole { m with current := id } :=
  ⟨{ h.itself with current := rfl, current' := rfl }, hid⟩

variable {α : Type} {good : Images → α → α → Prop} {x : Run α}

/-- What keeps in step with itself leaves nothing missing. -/
theorem perform (h : m.Whole)
    (hx : InStep (.self m.forest.frames.size) m.current m.current good x x) :
    (m.perform x).2.Whole := by
  have hended := hx _ (List.prefix_refl _) m m h.itself
  unfold Machine.perform
  generalize x m = result at hended
  cases hended with
  | ok hw _ hm => exact of_matches hm (hm.forest.present _ _ (h.pairs_current.later hw).standsFor)
  | @error _ halt _ _ hw hm =>
    have hwhole := of_matches hm (hm.forest.present _ _ (h.pairs_current.later hw).standsFor)
    cases halt <;> exact hwhole

end Whole

/-! ## Every machine that is reached -/

/-- A program keeps in step with itself. -/
theorem runProgram_inStep {w : Images} {c c' : FrameId} (fuel : Nat) (hc : w.Pairs c c')
    (stmts : List Stmt) :
    InStep w c c' (fun _ => Eq) (runProgram fuel stmts) (runProgram fuel stmts) := by
  induction stmts generalizing w with
  | nil => exact flush_inStep
  | cons stmt rest ih =>
    exact ((InStepAt.all fuel).execute stmt (hc.admits _)).bind fun _ hw _ _ _ => ih (hc.later hw)

/-- What is asked refers to frames of the machine, and a function that is handed over does
not look at frames. -/
def Request.Fits (m : Machine) : Request → Prop
  | .executeIn frame _ | .frameInside frame => m.forest.Present frame
  | .invoke callee args =>
    callee.Matches (.self m.forest.frames.size) callee ∧ ∀ arg ∈ args, m.Covers arg
  | .define frame _ value => m.forest.Present frame ∧ m.Covers value
  | .defineHost _ _ body => body.Blind (.self m.forest.frames.size)
  | .interpret _ | .execute _ | .evaluate _ | .takeOutput => True

/-- A function of the host that does not look at frames may be defined. -/
theorem defineHost_whole (h : m.Whole) (name : String) (arity : Nat) {body : HostBody}
    (hbody : body.Blind (.self m.forest.frames.size)) : (m.defineHost name arity body).Whole := by
  have hpushed : Machine.Matches (.self m.forest.frames.size) m.current m.current
      { m with hosts := m.hosts.push body } { m with hosts := m.hosts.push body } := by
    refine { h.itself with hosts := rfl, blind := fun other hother => ?_ }
    rcases Array.mem_push.mp hother with hold | rfl
    · exact h.itself.blind other hold
    · exact hbody
  refine .of_matches (hpushed.withForest (List.prefix_refl _)
    (h.itself.forest.define h.globals_present.self_pairs name (.plain trivial))) ?_
  exact Forest.present_define.mpr h.current

/-- **No request makes anything missing.** -/
theorem serve_whole (h : m.Whole) (fuel : Nat) {request : Request} (hrequest : request.Fits m) :
    (m.serve fuel request).Whole := by
  have all := InStepAt.all fuel
  cases request with
  | interpret stmts => exact h.perform (runProgram_inStep fuel h.pairs_current stmts)
  | execute stmt => exact h.perform (all.execute stmt (h.pairs_current.admits _))
  | executeIn frame stmts =>
    exact h.perform (all.executeEach stmts ((Forest.Present.self_pairs hrequest).admits _)).within
  | evaluate expr => exact h.perform (all.evaluate h.pairs_current.standsFor expr)
  | invoke callee args =>
    exact h.perform (all.invoke hrequest.1 (List.forall₂_same.mpr hrequest.2))
  | frameInside parent =>
    exact h.perform (newFrame_inStep (Forest.Present.self_pairs hrequest).standsFor)
  | define frame name value =>
    exact h.perform (define_inStep hrequest.1.self_pairs name hrequest.2)
  | defineHost name arity body => exact defineHost_whole h name arity hrequest
  | takeOutput => exact ⟨{ h.itself with sink := rfl }, h.current⟩

/-- Each request of a session fits the machine that it is put to. -/
def FitsAll (m : Machine) : List (Nat × Request) → Prop
  | [] => True
  | step :: rest => step.2.Fits m ∧ (m.serve step.1 step.2).FitsAll rest

/-- A session of fitting requests leaves a machine that refers to its own frames only. -/
theorem serveAll_whole (h : m.Whole) {session : List (Nat × Request)} (hsession : m.FitsAll session) :
    (m.serveAll session).Whole := by
  induction session generalizing m with
  | nil => exact h
  | cons step rest ih => exact ih (serve_whole h step.1 hsession.1) hsession.2

/-- So does a machine without anything in it. -/
theorem blank_whole (sink : Sink) : (blank sink).Whole := by
  have hroot : ∀ id : FrameId, id.index < 1 → id = globals := fun id hid =>
    congrArg FrameId.mk (Nat.lt_one_iff.mp hid)
  have hforest : Forest.Matches (Value.Matches (.self 1)) (.self 1) (blank sink).forest
      (blank sink).forest := by
    refine ⟨rfl, rfl, fun id id' hid => ?_, fun id id' hid => ?_, fun id hid => ?_,
      fun id id' hid => ?_⟩
    · obtain ⟨hlt, rfl⟩ := Images.eq_of_self_standsFor hid
      exact Forest.present_iff.mpr hlt
    · obtain ⟨hlt, rfl⟩ := Images.eq_of_self_pairs hid
      rw [hroot id hlt]
      exact ⟨_, _, rfl, rfl, .empty⟩
    · exact (Images.not_self_extra hid).elim
    · obtain ⟨hlt, rfl⟩ := Images.eq_of_self_standsFor hid
      rw [hroot id hlt]
      exact .paired (Images.self_pairs Nat.one_pos) .nil
  have hmatches : Machine.Matches (.self 1) globals globals (blank sink) (blank sink) :=
    { forest := hforest
      current := rfl
      current' := rfl
      fields := .empty
      hosts := rfl
      blind := fun _ hbody => by cases Array.not_mem_empty _ hbody
      nextSerial := rfl
      sink := rfl }
  exact .of_matches hmatches (Forest.present_iff.mpr Nat.one_pos)

/-- A machine as every program finds it. -/
theorem boot_whole (clock : Float) (sink : Sink) : (boot clock sink).Whole :=
  defineHost_whole (blank_whole sink) "clock" 0 fun _ _ _ _ _ => .ok (.plain trivial)

end Machine

end Lox
