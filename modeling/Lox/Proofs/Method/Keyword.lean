/-
`Lox.Proofs.Method.Keyword` -- the frames that bind `this` or `super`.

There are frames for one name only: a method that is given a receiver is closed over a
frame in which `this` is bound and nothing else, and the methods of a class with a
superclass over one in which just `super` is (`Frame.Tidy`). No other frame binds
these names. What is said here is how the operations on forests act on look-ups of
them: to bind another name leaves them alone, and a new frame is seen from no frame
that was there before, as long as all frames stand inside of frames that are there.
-/
import Lox.Proofs.Method.Enclosing
import Lox.Proofs.Scope.Mirror

set_option autoImplicit false

namespace Lox

/-- A frame with a receiver binds nothing else, and neither does one with a
superclass. -/
structure Frame.Tidy (frame : Frame Value) : Prop where
  this : ∀ value, frame.bindings.find? "this" = some value →
    frame.bindings.names = ["this"] ∧ ∃ cls id, value = .instanceOf cls id
  super : ∀ value, frame.bindings.find? "super" = some value →
    frame.bindings.names = ["super"] ∧ ∃ cls, value = .classRef cls

namespace Forest

variable {α : Type} {f : Forest α} {id key parent : FrameId} {name other : String} {value : α}

/-- The frame has been created. -/
def Present (f : Forest α) (id : FrameId) : Prop :=
  ∃ frame, f.frame? id = some frame

/-- All frames stand inside of frames that have been created. -/
def Closed (f : Forest α) : Prop :=
  ∀ id frame, f.frame? id = some frame → ∀ outer ∈ frame.outer, f.Present outer

/-- A frame with a value in it has been created. -/
theorem present_of_local? (h : f.local? id name = some value) : f.Present id :=
  isSome_frame?_of_local? (Option.isSome_iff_exists.mpr ⟨value, h⟩)

/-- The next frame has not. -/
theorem Present.ne_next (h : f.Present id) : id ≠ f.next := by
  obtain ⟨frame, hframe⟩ := h
  exact ne_next_of_some hframe

/-- So the frames around a frame have been created too. -/
theorem Closed.chain (h : f.Closed) (hid : f.Present id) : ∀ key ∈ f.chain id, f.Present key := by
  obtain ⟨frame, hframe⟩ := hid
  rw [chain_of_frame? hframe]
  exact List.forall_mem_cons.mpr ⟨⟨frame, hframe⟩, h id frame hframe⟩

/-- A look-up depends on the frames that it visits, and what they bind. -/
theorem lookup_congr {f f' : Forest α} (hchain : f'.chain id = f.chain id)
    (hlocal : ∀ key ∈ f.chain id, f'.local? key name = f.local? key name) :
    f'.lookup id name = f.lookup id name := by
  unfold lookup
  rw [hchain]
  generalize f.chain id = chain at hlocal
  induction chain with
  | nil => rfl
  | cons key rest ih =>
    rw [List.findSome?_cons, List.findSome?_cons, hlocal key List.mem_cons_self,
      ih fun key hkey => hlocal key (List.mem_cons_of_mem _ hkey)]

/-! ## Binding a name -/

/-- Binding a name creates no frame. -/
theorem present_define : (f.define id name value).Present key ↔ f.Present key := by
  unfold Present
  rw [frame?_define]
  split <;> simp

theorem next_define : (f.define id name value).next = f.next := by
  simp [next, define]

/-- It moves none either. -/
theorem chain_define : (f.define id name value).chain key = f.chain key := by
  unfold chain
  rw [frame?_define]
  by_cases hid : id = key
  · rw [if_pos hid]
    cases f.frame? key <;> rfl
  · rw [if_neg hid]

/-- So it keeps all frames inside of created ones. -/
theorem Closed.define (h : f.Closed) : (f.define id name value).Closed := by
  intro key frame hframe outer houter
  rw [present_define]
  rw [frame?_define] at hframe
  split at hframe
  · obtain ⟨old, hold, rfl⟩ := Option.map_eq_some_iff.mp hframe
    exact h key old hold outer houter
  · exact h key frame hframe outer houter

/-- To bind a name leaves all others alone. -/
theorem local?_define_of_ne (h : other ≠ name) :
    (f.define id name value).local? key other = f.local? key other := by
  unfold local?
  rw [frame?_define]
  split
  · cases f.frame? key with
    | none => rfl
    | some frame => exact Table.find?_insert_of_ne _ _ h
  · rfl

/-- Other names are found as before. -/
theorem lookup_define_of_ne (h : other ≠ name) :
    (f.define id name value).lookup key other = f.lookup key other :=
  lookup_congr chain_define fun _ _ => local?_define_of_ne h

/-! ## New frames -/

/-- Adding a frame creates that one. -/
theorem present_push (added : Frame α) :
    (⟨f.frames.push added⟩ : Forest α).Present key ↔ f.Present key ∨ key = f.next := by
  unfold Present
  by_cases hkey : key = f.next
  · subst hkey
    simp [frame?_push_next]
  · simp [frame?_push_of_ne _ hkey, hkey]

/-- The other ones stay where they are. -/
theorem chain_push (added : Frame α) (h : f.Present key) :
    (⟨f.frames.push added⟩ : Forest α).chain key = f.chain key := by
  unfold chain
  rw [frame?_push_of_ne _ h.ne_next]

theorem present_addChild : (f.addChild parent).Present key ↔ f.Present key ∨ key = f.next :=
  present_push _

/-- So they do when a frame is made inside of another. -/
theorem chain_addChild (h : f.Present key) : (f.addChild parent).chain key = f.chain key :=
  chain_push _ h

/-- If that one is there, the new frame is inside of created ones. -/
theorem Closed.addChild (h : f.Closed) (hparent : f.Present parent) : (f.addChild parent).Closed := by
  intro key frame hframe outer houter
  rw [present_addChild]
  left
  by_cases hkey : key = f.next
  · rw [hkey, frame?_addChild_next] at hframe
    cases hframe
    exact h.chain hparent outer houter
  · rw [frame?_addChild_of_ne hkey] at hframe
    exact h key frame hframe outer houter

/-- Nothing is found from the other frames that was not found before. -/
theorem lookup_addChild (h : f.Present key) :
    (f.addChild parent).lookup key name = f.lookup key name :=
  lookup_congr (chain_addChild h) fun _ _ => local?_addChild

/-- From a new frame one sees what is to be seen from the frame around it. -/
theorem lookup_addChild_next (hparent : f.Present parent) :
    (f.addChild parent).lookup f.next name = f.lookup parent name := by
  have hunbound : (f.addChild parent).local? f.next name = none := by
    rw [local?_addChild, local?, frame?_next, Option.bind_none]
  have hsame : (f.addChild parent).lookup parent name = f.lookup parent name :=
    lookup_addChild hparent
  unfold lookup at hsame ⊢
  rw [chain_addChild_next, List.findSome?_cons, hunbound, ← hsame, chain_addChild hparent]

/-! ## New frames with one name -/

/-- A new frame, in which a name is bound. -/
def addWith (f : Forest α) (parent : FrameId) (name : String) (value : α) : Forest α :=
  (f.addChild parent).define f.next name value

/-- A new frame with a name in it is one frame more. -/
theorem present_addWith :
    (f.addWith parent name value).Present key ↔ f.Present key ∨ key = f.next := by
  rw [addWith, present_define, present_addChild]

/-- It has that name and no other. -/
theorem frame?_addWith_next : (f.addWith parent name value).frame? f.next
    = some ⟨Table.empty.insert name value, f.chain parent⟩ := by
  rw [addWith, frame?_define, if_pos rfl, frame?_addChild_next, Option.map_some]

/-- The other frames are as they were. -/
theorem frame?_addWith_of_ne (h : key ≠ f.next) :
    (f.addWith parent name value).frame? key = f.frame? key := by
  rw [addWith, frame?_define, if_neg (Ne.symm h), frame?_addChild_of_ne h]

/-- So the name is found in it, and no other one. -/
theorem local?_addWith_next : (f.addWith parent name value).local? f.next other
    = if other = name then some value else none := by
  rw [local?, frame?_addWith_next, Option.bind_some, Table.find?_insert, Table.find?_empty]

/-- In the other frames everything is found as before. -/
theorem local?_addWith_of_ne (h : key ≠ f.next) :
    (f.addWith parent name value).local? key other = f.local? key other := by
  rw [local?, local?, frame?_addWith_of_ne h]

/-- If the frame around it is there, it is inside of created ones. -/
theorem Closed.addWith (h : f.Closed) (hparent : f.Present parent) :
    (f.addWith parent name value).Closed :=
  (h.addChild hparent).define

/-- No frame that was there is inside of the new one. -/
theorem Closed.lookup_addWith (h : f.Closed) (hkey : f.Present key) :
    (f.addWith parent name value).lookup key other = f.lookup key other := by
  refine lookup_congr ?_ fun visited hvisited => ?_
  · rw [Forest.addWith, chain_define, chain_addChild hkey]
  · exact local?_addWith_of_ne (h.chain hkey visited hvisited).ne_next

/-- From the new frame one sees the name that it binds, and else what is to be seen from
the frame around it. -/
theorem Closed.lookup_addWith_next (h : f.Closed) (hparent : f.Present parent) :
    (f.addWith parent name value).lookup f.next other
      = if other = name then some value else f.lookup parent other := by
  have hsame : (f.addWith parent name value).lookup parent other = f.lookup parent other :=
    h.lookup_addWith hparent
  have hchain : (f.addWith parent name value).chain f.next
      = f.next :: (f.addWith parent name value).chain parent := by
    rw [Forest.addWith, chain_define, chain_define, chain_addChild_next, chain_addChild hparent]
  unfold lookup at hsame ⊢
  rw [hchain, List.findSome?_cons, local?_addWith_next]
  by_cases hname : other = name
  · rw [if_pos hname, if_pos hname]
  · rw [if_neg hname, if_neg hname]
    exact hsame

end Forest

/-- A frame that binds neither of the two names. -/
theorem Frame.tidy_of_none {frame : Frame Value}
    (h : ∀ key ∈ keywords, frame.bindings.find? key = none) : frame.Tidy := by
  refine ⟨fun value hvalue => ?_, fun value hvalue => ?_⟩
  · cases hvalue.symm.trans (h "this" (by decide))
  · cases hvalue.symm.trans (h "super" (by decide))

end Lox
