/-
`Lox.Proofs.Store.Scoping` -- handles obey the laws of scopes.

A frame keeps all the frames around it in a list, and a look-up and an assignment
each go through that list in their own way. The record knows no such list, but only
what was made inside of what. That the two agree (`Mirrors`) is an invariant of all
requests: the list of a frame is the one of its parent with the frame in front, each
frame holds what was last written to it, and holds just the names that were defined in
it. From there the laws are facts about one forest: where an environment is reached
on the way outwards, a definition in it is seen, and where it is not reached nothing
changes.
-/
import Lox.Proofs.Method.Keyword
import Lox.Proofs.Store.Record

set_option autoImplicit false

namespace Lox

/-! ## Forests -/

namespace Forest

variable {α : Type} {f : Forest α} {id owner key : FrameId} {name other : String} {value : α}

/-! ### What a definition does to look-ups -/

/-- A definition is seen from where its frame is reached before any other that binds the
name. -/
theorem lookup_define_of_reached {before after : List FrameId} (howner : f.Present owner)
    (hchain : f.chain id = before ++ owner :: after)
    (hbefore : ∀ key ∈ before, f.local? key name = none) :
    (f.define owner name value).lookup id name = some value := by
  obtain ⟨frame, hframe⟩ := howner
  rw [lookup, chain_define, hchain]
  clear hchain
  induction before with
  | nil => rw [List.nil_append, List.findSome?_cons, local?_define hframe, if_pos ⟨rfl, rfl⟩]
  | cons key rest ih =>
    rw [List.cons_append, List.findSome?_cons, local?_define hframe]
    by_cases hkey : owner = key
    · rw [if_pos ⟨hkey, rfl⟩]
    · rw [if_neg fun h => hkey h.1, hbefore key List.mem_cons_self]
      exact ih fun key hkey => hbefore key (List.mem_cons_of_mem _ hkey)

/-- It is not seen from where the frame is not reached, or only behind one that binds the
name. -/
theorem lookup_define_of_unreached (howner : f.Present owner)
    (h : ∀ before after, f.chain id = before ++ owner :: after →
      ∃ key ∈ before, (f.local? key name).isSome) :
    (f.define owner name value).lookup id name = f.lookup id name := by
  obtain ⟨frame, hframe⟩ := howner
  rw [lookup, lookup, chain_define]
  generalize f.chain id = chain at h
  induction chain with
  | nil => rfl
  | cons key rest ih =>
    have hkey : owner ≠ key := by
      rintro rfl
      obtain ⟨bound, hbound, -⟩ := h [] rest rfl
      cases hbound
    rw [List.findSome?_cons, List.findSome?_cons, local?_define hframe, if_neg fun h => hkey h.1]
    cases hlocal : f.local? key name with
    | some found => rfl
    | none =>
      refine ih fun before after hrest => ?_
      obtain ⟨bound, hbound, hsome⟩ := h (key :: before) after (by rw [hrest, List.cons_append])
      rcases List.mem_cons.mp hbound with rfl | hbefore
      · rw [hlocal] at hsome
        cases hsome
      · exact ⟨bound, hbefore, hsome⟩

/-- The names of a frame are those with values in it. -/
theorem mem_names_iff : name ∈ f.names id ↔ (f.local? id name).isSome := by
  unfold names local?
  cases f.frame? id with
  | none => simp
  | some frame => exact Table.mem_names_iff

/-- Binding a name changes the names of its own frame at most. -/
theorem names_define_of_ne (h : owner ≠ id) : (f.define owner name value).names id = f.names id := by
  rw [names, names, frame?_define, if_neg h]

/-- There it adds that one. -/
theorem mem_names_define (howner : f.Present owner) :
    other ∈ (f.define owner name value).names owner ↔ other = name ∨ other ∈ f.names owner := by
  obtain ⟨frame, hframe⟩ := howner
  rw [mem_names_iff, mem_names_iff, local?_define hframe]
  by_cases hname : other = name <;> simp [hname]

/-! ### New frames -/

/-- A further empty frame inside of others. -/
def added (f : Forest α) (outer : List FrameId) : Forest α :=
  ⟨f.frames.push ⟨.empty, outer⟩⟩

variable {outer : List FrameId}

/-- A frame that is added is one more. -/
theorem present_added : (f.added outer).Present key ↔ f.Present key ∨ key = f.next :=
  present_push _

/-- It is empty, so the same is found in all frames. -/
theorem local?_added : (f.added outer).local? id name = f.local? id name :=
  local?_push_bare outer

/-- It stands inside of the frames that were given. -/
theorem chain_added_next : (f.added outer).chain f.next = f.next :: outer :=
  chain_of_frame? (frame?_push_next _)

/-- The other ones stay where they are. -/
theorem chain_added (h : f.Present key) : (f.added outer).chain key = f.chain key :=
  chain_push _ h

end Forest

/-! ## What handles see of a forest -/

namespace Handles

variable {α : Type} {s : Handles α} {handle : Nat} {id : FrameId}

/-- A handle of a frame is answered for that frame. -/
theorem withFrame_of_some (h : s.frames[handle]? = some id)
    (answer : FrameId → Option (Answer α) × Handles α) : s.withFrame handle answer = answer id := by
  rw [withFrame, h]

/-- One that was never given out has no answer. -/
theorem withFrame_of_none (h : s.frames[handle]? = none)
    (answer : FrameId → Option (Answer α) × Handles α) : s.withFrame handle answer = (none, s) := by
  rw [withFrame, h]

/-- A request that changes nothing whatever the frame is, changes nothing. -/
theorem withFrame_snd {answer : FrameId → Option (Answer α) × Handles α}
    (h : ∀ id, (answer id).2 = s) (handle : Nat) : (s.withFrame handle answer).2 = s := by
  unfold withFrame
  split
  · exact h _
  · rfl

/-- Reading changes nothing. -/
theorem serve_get_snd (s : Handles α) (handle : Nat) (name : Token) :
    (s.serve (.get handle name)).2 = s := by
  refine withFrame_snd (fun id => ?_) handle
  cases s.forest.lookup id name.lexeme <;> rfl

theorem serve_lookup_snd (s : Handles α) (handle : Nat) (name : String) :
    (s.serve (.lookup handle name)).2 = s :=
  withFrame_snd (s := s) (fun _ => rfl) handle

theorem serve_names_snd (s : Handles α) (handle : Nat) : (s.serve (.names handle)).2 = s :=
  withFrame_snd (s := s) (fun _ => rfl) handle

theorem serve_same_snd (s : Handles α) (handle other : Nat) :
    (s.serve (.same handle other)).2 = s :=
  withFrame_snd (s := s) (fun _ => withFrame_snd (s := s) (fun _ => rfl) other) handle

/-- What a handle finds is found from its frame on. -/
theorem finds_eq (s : Handles α) (handle : Nat) (name : String) :
    s.finds handle name = s.frames[handle]?.bind fun id => s.forest.lookup id name := by
  rw [finds, serve]
  cases hframe : s.frames[handle]? with
  | none => rw [withFrame_of_none hframe, Option.bind_none]
  | some id => rw [withFrame_of_some hframe, Option.bind_some]

/-- What it lists are the names of its frame. -/
theorem lists_eq (s : Handles α) (handle : Nat) :
    s.lists handle = s.frames[handle]?.elim [] s.forest.names := by
  rw [lists, serve]
  cases hframe : s.frames[handle]? with
  | none => rw [withFrame_of_none hframe, Option.elim_none]
  | some id => rw [withFrame_of_some hframe, Option.elim_some]

theorem finds_of_some (h : s.frames[handle]? = some id) (name : String) :
    s.finds handle name = s.forest.lookup id name := by
  rw [finds_eq, h, Option.bind_some]

/-- So for what is listed. -/
theorem lists_of_some (h : s.frames[handle]? = some id) : s.lists handle = s.forest.names id := by
  rw [lists_eq, h, Option.elim_some]

/-! ### Handles that share a frame -/

section Aliases

variable {old new : Nat}

/-- Two handles of one frame may stand for each other. -/
theorem withFrame_swap (h : s.frames[old]? = s.frames[new]?) (handle : Nat) :
    s.withFrame (Request.redirect.swap old new handle) = s.withFrame handle := by
  have hframe : s.frames[Request.redirect.swap old new handle]? = s.frames[handle]? := by
    unfold Request.redirect.swap
    split
    · rename_i hold
      rw [hold, h]
    · rfl
  funext answer
  rw [withFrame, withFrame, hframe]

/-- No request makes a difference between handles for the same frame. -/
theorem serve_redirect (h : s.frames[old]? = s.frames[new]?) (request : Request α) :
    s.serve (request.redirect old new) = s.serve request := by
  cases request <;> simp only [Request.redirect, serve, withFrame_swap h]

/-- Requests are served one after the other. -/
theorem serveAll_cons (s : Handles α) (request : Request α) (rest : List (Request α)) :
    s.serveAll (request :: rest) = ((s.serve request).1 :: ((s.serve request).2.serveAll rest).1,
      ((s.serve request).2.serveAll rest).2) := rfl

/-- The frame of a handle stays the same. -/
theorem frames_serve (h : s.frames[handle]? = some id) (request : Request α) :
    (s.serve request).2.frames[handle]? = some id := by
  have hadd : ∀ (forest : Forest α) (added : FrameId),
      (s.add forest added).2.frames[handle]? = some id := by
    intro forest added
    show (s.frames.push added)[handle]? = some id
    rw [Array.getElem?_push, if_neg, h]
    exact Nat.ne_of_lt (Array.getElem?_eq_some_iff.mp h).1
  have hwith : ∀ other (answer : FrameId → Option (Answer α) × Handles α),
      (∀ id', (answer id').2.frames[handle]? = some id) →
      (s.withFrame other answer).2.frames[handle]? = some id := by
    intro other answer hanswer
    unfold withFrame
    split
    · exact hanswer _
    · exact h
  cases request with
  | new => exact hadd _ _
  | child other => exact hwith other _ fun _ => hadd _ _
  | clone other => exact hwith other _ fun _ => hadd _ _
  | define other name value => exact hwith other _ fun _ => h
  | assign other name value =>
    refine hwith other _ fun id' => ?_
    cases s.forest.assign? id' name.lexeme value <;> exact h
  | get other name =>
    refine hwith other _ fun id' => ?_
    cases s.forest.lookup id' name.lexeme <;> exact h
  | lookup other name => exact hwith other _ fun _ => h
  | names other => exact hwith other _ fun _ => h
  | same other third => exact hwith other _ fun _ => hwith third _ fun _ => h

/-- So no request can tell handles of one frame apart, by induction on the requests. -/
theorem serveAll_redirect (hold : s.frames[old]? = some id) (hnew : s.frames[new]? = some id)
    (requests : List (Request α)) :
    s.serveAll (requests.map (Request.redirect old new)) = s.serveAll requests := by
  induction requests generalizing s with
  | nil => rfl
  | cons request rest ih =>
    rw [List.map_cons, serveAll_cons, serveAll_cons, serve_redirect (hold.trans hnew.symm),
      ih (frames_serve hold request) (frames_serve hnew request)]

end Aliases

end Handles

/-! ## Environments that are as the record says -/

namespace Record

variable {α : Type} {s : Handles α} {r r' : Record α} {id owner parent : FrameId} {name : String}
  {value : α} {through : FrameId → Prop} {handle : Nat}

/-- Inside of others are the environments that were, and the new one if it is. -/
theorem inside_made {around : Option FrameId} :
    (r.made around).Inside id parent ↔ r.Inside id parent ∨ id = r.next ∧ around = some parent := by
  have hnext : id = r.next ↔ id.index = r.parents.length := by
    rw [next]
    constructor
    · rintro rfl
      rfl
    · exact fun h => congrArg FrameId.mk h
  show (r.parents ++ [around])[id.index]? = some (some parent) ↔
    r.parents[id.index]? = some (some parent) ∨ id = r.next ∧ around = some parent
  rw [hnext]
  rcases Nat.lt_trichotomy id.index r.parents.length with hold | hnew | hlater
  · rw [List.getElem?_append_left hold]
    simp [hold.ne]
  · simp [hnew]
  · rw [List.getElem?_append_right hlater.le, List.getElem?_eq_none hlater.le,
      List.getElem?_eq_none (Nat.sub_pos_of_lt hlater)]
    simp [hlater.ne']

/-- What was written last is what is there to be read, in its own frame. -/
theorem lastWritten?_written {key : FrameId} {other : String} :
    (r.written id name value).lastWritten? key other =
      if id = key ∧ other = name then some value else r.lastWritten? key other := by
  unfold lastWritten? written
  rw [List.findSome?_cons]
  by_cases hhit : id = key ∧ other = name
  · simp [hhit]
  · simp [hhit]

/-- The frames are inside one another as environments were made, each handle is for its
frame, and each frame binds what was defined there and holds what was written last. -/
structure Mirrors (s : Handles α) (r : Record α) : Prop where
  handles : s.frames.toList = r.handles
  size : s.forest.frames.size = r.parents.length
  present : ∀ id ∈ r.handles, s.forest.Present id
  inside : ∀ id parent, r.Inside id parent →
    s.forest.Present parent ∧ s.forest.chain id = id :: s.forest.chain parent
  root : ∀ id, s.forest.Present id → (∀ parent, ¬ r.Inside id parent) → s.forest.chain id = [id]
  local? : ∀ id name, s.forest.local? id name = r.lastWritten? id name
  bound : ∀ id name, (s.forest.local? id name).isSome ↔ r.Binds id name
  ordered : ∀ id frame, s.forest.frame? id = some frame → frame.bindings.Ordered

namespace Mirrors

/-- The handles are those of the record. -/
theorem frames (h : Mirrors s r) (handle : Nat) : s.frames[handle]? = r.handles[handle]? := by
  rw [← h.handles, Array.getElem?_toList]

/-- The next frame has one number in both. -/
theorem next (h : Mirrors s r) : s.forest.next = r.next := by
  rw [Forest.next, h.size, Record.next]

/-- A handle is for a frame that is there. -/
theorem present_of_handle (h : Mirrors s r) (hhandle : r.handles[handle]? = some id) :
    s.forest.Present id :=
  h.present id (List.mem_of_getElem? hhandle)

/-- A name that is not bound has no value. -/
theorem unbound (h : Mirrors s r) : ¬ r.Binds id name ↔ s.forest.local? id name = none := by
  rw [← h.bound, Option.not_isSome_iff_eq_none]

/-- A name is bound in a frame that is there. -/
theorem present_of_binds (h : Mirrors s r) (hbinds : r.Binds id name) : s.forest.Present id :=
  Forest.isSome_frame?_of_local? ((h.bound id name).mpr hbinds)

/-! ### Ways outwards -/

/-- A way outwards is a beginning of the list of frames that a look-up visits. -/
theorem leads_iff (h : Mirrors s r) (hid : s.forest.Present id) :
    r.Leads through id owner ↔ ∃ before after,
      s.forest.chain id = before ++ owner :: after ∧ ∀ key ∈ before, through key := by
  constructor
  · intro hleads
    induction hleads using Relation.ReflTransGen.head_induction_on with
    | refl => exact ⟨[], _, rfl, fun _ hkey => absurd hkey List.not_mem_nil⟩
    | head hstep _ ih =>
      obtain ⟨hthrough, hinside⟩ := hstep
      obtain ⟨hparent, hchain⟩ := h.inside _ _ hinside
      obtain ⟨before, after, hsplit, hbefore⟩ := ih hparent
      refine ⟨_ :: before, after, ?_, List.forall_mem_cons.mpr ⟨hthrough, hbefore⟩⟩
      rw [hchain, hsplit, List.cons_append]
  · rintro ⟨before, after, hsplit, hbefore⟩
    induction before generalizing id with
    | nil =>
      obtain ⟨rfl, -⟩ := List.cons_eq_cons.mp hsplit
      exact .refl
    | cons key rest ih =>
      obtain ⟨rfl, hrest⟩ := List.cons_eq_cons.mp hsplit
      by_cases hroot : ∃ parent, r.Inside id parent
      · obtain ⟨parent, hinside⟩ := hroot
        obtain ⟨hparent, hchain⟩ := h.inside id parent hinside
        rw [hchain, List.cons_append, List.cons_eq_cons] at hsplit
        exact .head ⟨hbefore id List.mem_cons_self, hinside⟩
          (ih hparent hsplit.2 fun key hkey => hbefore key (List.mem_cons_of_mem _ hkey))
      · have hchain := h.root id hid fun parent hinside => hroot ⟨parent, hinside⟩
        rw [hchain, List.cons_append, List.cons_eq_cons] at hsplit
        exact absurd hsplit.2.symm (List.append_ne_nil_of_right_ne_nil _ (List.cons_ne_nil _ _))

/-- Walking from parent to parent visits the frames around a frame. -/
theorem onChain_iff (h : Mirrors s r) (hid : s.forest.Present id) :
    r.OnChain id owner ↔ owner ∈ s.forest.chain id := by
  rw [OnChain, h.leads_iff hid, List.mem_iff_append]
  simp

/-- A walk reaches an owner if none before it has the name. -/
theorem reaches_iff (h : Mirrors s r) (hid : s.forest.Present id) :
    r.Reaches name id owner ↔ ∃ before after,
      s.forest.chain id = before ++ owner :: after ∧
        ∀ key ∈ before, s.forest.local? key name = none := by
  rw [Reaches, h.leads_iff hid]
  simp only [h.unbound]

/-- The nearest environment that binds a name is the one where a look-up ends. -/
theorem nearest_iff (h : Mirrors s r) (hid : s.forest.Present id) :
    r.Nearest name id owner ↔ s.forest.owner? id name = some owner := by
  rw [Nearest, h.reaches_iff hid, ← h.bound, Forest.owner?, List.find?_eq_some_iff_append,
    and_comm]
  simp

/-! ### What requests change -/

/-- With nothing made, nothing is recorded. -/
theorem start : Mirrors (Handles.empty : Handles α) Record.start where
  handles := rfl
  size := rfl
  present _ hmem := absurd hmem List.not_mem_nil
  inside _ _ hinside := by cases hinside
  root _ hpresent _ := by
    obtain ⟨frame, hframe⟩ := hpresent
    cases hframe
  local? _ _ := rfl
  bound _ _ := ⟨fun hsome => (by cases hsome), fun hmem => absurd hmem List.not_mem_nil⟩
  ordered _ _ hframe := by cases hframe

/-- An environment that has been made right inside another is there. -/
theorem present_of_inside (h : Mirrors s r) (hinside : r.Inside id parent) : s.forest.Present id := by
  obtain ⟨hbound, -⟩ := List.getElem?_eq_some_iff.mp hinside
  rw [← h.size] at hbound
  exact ⟨_, Array.getElem?_eq_getElem hbound⟩

/-- A new frame is recorded with its parent. -/
theorem made (h : Mirrors s r) (around : Option FrameId)
    (haround : ∀ id ∈ around, s.forest.Present id) :
    Mirrors ⟨s.forest.added (around.elim [] s.forest.chain), s.frames.push s.forest.next⟩
      -- the handle that was made last is the one that the forest would have made next
      (r.made around) where
  handles := by
    rw [Array.toList_push, h.handles, h.next]
    rfl
  size := by
    show (s.forest.frames.push _).size = (r.parents ++ [around]).length
    rw [Array.size_push, List.length_append, h.size, List.length_singleton]
  present id hmem := by
    rw [Forest.present_added]
    rcases List.mem_append.mp hmem with hold | hnew
    · exact .inl (h.present id hold)
    · rw [List.mem_singleton, ← h.next] at hnew
      exact .inr hnew
  inside id parent hinside := by
    rcases inside_made.mp hinside with hold | ⟨rfl, rfl⟩
    · obtain ⟨hparent, hchain⟩ := h.inside id parent hold
      rw [Forest.present_added, Forest.chain_added (h.present_of_inside hold),
        Forest.chain_added hparent]
      -- the parent was there before, so its own chain is the old one
      exact ⟨.inl hparent, hchain⟩
    · have hparent := haround parent rfl
      rw [Forest.present_added, ← h.next, Forest.chain_added_next, Forest.chain_added hparent]
      exact ⟨.inl hparent, rfl⟩
  root id hpresent hroot := by
    rcases Forest.present_added.mp hpresent with hold | rfl
    · rw [Forest.chain_added hold]
      exact h.root id hold fun parent hinside => hroot parent (inside_made.mpr (.inl hinside))
    · rw [Forest.chain_added_next]
      cases around with
      | none => rfl
      | some parent => exact absurd (inside_made.mpr (.inr ⟨h.next, rfl⟩)) (hroot parent)
  local? id name := by
    rw [Forest.local?_added]
    exact h.local? id name
  bound id name := by
    rw [Forest.local?_added]
    exact h.bound id name
  -- the new frame has no entries that could be out of order
  ordered id frame hframe := by
    by_cases hid : id = s.forest.next
    · rw [hid, Forest.added, Forest.frame?_push_next, Option.some.injEq] at hframe
      rw [← hframe]
      exact Table.ordered_empty
    · rw [Forest.added, Forest.frame?_push_of_ne _ hid] at hframe
      exact h.ordered id frame hframe

/-- A value is given to a name in a frame; which names that binds is the record's to say. -/
theorem written (h : Mirrors s r) (hid : s.forest.Present id) {defined : List (FrameId × String)}
    (hdefined : ∀ key other,
      (key, other) ∈ defined ↔ (id = key ∧ other = name) ∨ (key, other) ∈ r.defined) :
    Mirrors { s with forest := s.forest.define id name value }
      { r.written id name value with defined } where
  handles := h.handles
  size := by
    show (s.forest.frames.modify _ _).size = r.parents.length
    rw [Array.size_modify, h.size]
  present key hmem := Forest.present_define.mpr (h.present key hmem)
  inside key parent hinside := by
    rw [Forest.present_define, Forest.chain_define, Forest.chain_define]
    exact h.inside key parent hinside
  root key hpresent hroot := by
    rw [Forest.chain_define]
    exact h.root key (Forest.present_define.mp hpresent) hroot
  local? key other := by
    obtain ⟨frame, hframe⟩ := hid
    rw [Forest.local?_define hframe, h.local?]
    exact lastWritten?_written.symm
  bound key other := by
    obtain ⟨frame, hframe⟩ := hid
    rw [Forest.local?_define hframe]
    show _ ↔ (key, other) ∈ defined
    -- a name is bound if it was, or if it is the one that is written
    rw [hdefined]
    by_cases hhit : id = key ∧ other = name
    · simp [hhit]
    · rw [if_neg hhit, h.bound, or_iff_right hhit]
      rfl
  ordered key frame hframe := by
    rw [Forest.frame?_define] at hframe
    split at hframe
    · obtain ⟨old, hold, rfl⟩ := Option.map_eq_some_iff.mp hframe
      exact (h.ordered key old hold).insert
    · exact h.ordered key frame hframe

/-- A request that the record takes leads to what it records. -/
theorem serve (h : Mirrors s r) {request : Handles.Request α} (hr : r.Takes request r') :
    Mirrors (s.serve request).2 r' := by
  cases hr with
  -- what makes an environment is recorded with the frame that it was made in
  | new => exact h.made none fun _ hnone => by cases hnone
  | child hhandle =>
    have hid := h.present_of_handle hhandle
    rw [Handles.serve, Handles.withFrame_of_some ((h.frames _).trans hhandle)]
    refine h.made (some _) fun id hsome => ?_
    cases hsome
    exact hid
  -- a handle that was never given out leaves everything as it is
  | noChild hhandle =>
    rw [Handles.serve, Handles.withFrame_of_none ((h.frames _).trans hhandle)]
    exact h
  -- a clone is one more handle for the frame
  | clone hhandle =>
    have hid := h.present_of_handle hhandle
    rw [Handles.serve, Handles.withFrame_of_some ((h.frames _).trans hhandle)]
    refine { h with handles := ?_, present := ?_ }
    · show (s.frames.push _).toList = _
      rw [Array.toList_push, h.handles]
    · intro key hmem
      rcases List.mem_append.mp hmem with hold | hnew
      · exact h.present key hold
      · rw [List.mem_singleton] at hnew
        rw [hnew]
        exact hid
  | noClone hhandle =>
    rw [Handles.serve, Handles.withFrame_of_none ((h.frames _).trans hhandle)]
    exact h
  -- what is defined is written to the frame itself, whether it was bound there or not
  | define hhandle =>
    rw [Handles.serve, Handles.withFrame_of_some ((h.frames _).trans hhandle)]
    refine h.written (h.present_of_handle hhandle) fun key other => ?_
    rw [List.mem_cons, Prod.mk.injEq, eq_comm (a := key)]
  | noDefine hhandle =>
    rw [Handles.serve, Handles.withFrame_of_none ((h.frames _).trans hhandle)]
    exact h
  -- the nearest frame that binds the name in the record is its owner in the forest
  | assign hhandle howner =>
    have hnearest := (h.nearest_iff (h.present_of_handle hhandle)).mp howner
    rw [Handles.serve, Handles.withFrame_of_some ((h.frames _).trans hhandle), Forest.assign?,
      hnearest]
    refine h.written (h.present_of_binds howner.2) fun key other => ?_
    rw [iff_or_self]
    rintro ⟨rfl, rfl⟩
    exact howner.2
  -- without such a frame nothing is written, be it for want of a handle or of the name
  | noAssign hunbound =>
    rename_i handle name value
    rw [Handles.serve]
    cases hhandle : s.frames[handle]? with
    | none =>
      rw [Handles.withFrame_of_none hhandle]
      exact h
    | some id =>
      have hrecord := (h.frames handle).symm.trans hhandle
      have hnone : s.forest.owner? id name.lexeme = none := by
        rw [Option.eq_none_iff_forall_ne_some]
        intro owner howner
        exact hunbound id owner hrecord ((h.nearest_iff (h.present_of_handle hrecord)).mpr howner)
      rw [Handles.withFrame_of_some hhandle, Forest.assign?, hnone]
      exact h
  -- questions change neither the frames nor the record
  | get =>
    rw [Handles.serve_get_snd]
    exact h
  | lookup =>
    rw [Handles.serve_lookup_snd]
    exact h
  | names =>
    rw [Handles.serve_names_snd]
    exact h
  | same =>
    rw [Handles.serve_same_snd]
    exact h

/-! ### What handles find -/

variable {token : Token}

/-- What a handle finds in any forest with the same frames for handles. -/
theorem finds_in (h : Mirrors s r) (hhandle : r.handles[handle]? = some id) (f : Forest α)
    (name : String) : ({ s with forest := f } : Handles α).finds handle name = f.lookup id name :=
  Handles.finds_of_some (s := { s with forest := f }) ((h.frames handle).trans hhandle) name

/-- What a handle lists in another forest are the names of its frame there. -/
theorem lists_in (h : Mirrors s r) (hhandle : r.handles[handle]? = some id) (f : Forest α) :
    ({ s with forest := f } : Handles α).lists handle = f.names id :=
  Handles.lists_of_some (s := { s with forest := f }) ((h.frames handle).trans hhandle)

/-- A handle finds what its frame does. -/
theorem finds (h : Mirrors s r) (hhandle : r.handles[handle]? = some id) (name : String) :
    s.finds handle name = s.forest.lookup id name :=
  h.finds_in hhandle s.forest name

/-- It lists the names of its frame. -/
theorem lists (h : Mirrors s r) (hhandle : r.handles[handle]? = some id) :
    s.lists handle = s.forest.names id :=
  h.lists_in hhandle s.forest

/-- It is answered for its frame. -/
theorem withFrame (h : Mirrors s r) (hhandle : r.handles[handle]? = some id)
    (answer : FrameId → Option (Handles.Answer α) × Handles α) :
    s.withFrame handle answer = answer id :=
  Handles.withFrame_of_some ((h.frames handle).trans hhandle) answer

/-- What is found was written last by the nearest frame that has the name. -/
theorem finds_of_nearest (h : Mirrors s r) (hhandle : r.handles[handle]? = some id)
    (howner : r.Nearest name id owner) :
    ∃ value, r.lastWritten? owner name = some value ∧ s.finds handle name = some value := by
  have hlookup := Forest.lookup_of_owner? ((h.nearest_iff (h.present_of_handle hhandle)).mp howner)
  obtain ⟨value, hvalue⟩ := Option.isSome_iff_exists.mp ((h.bound owner name).mpr howner.2)
  refine ⟨value, (h.local? owner name).symm.trans hvalue, ?_⟩
  rw [h.finds hhandle, hlookup, hvalue]

/-- Nothing is found exactly if no frame on the way has the name. -/
theorem finds_none_iff (h : Mirrors s r) (hhandle : r.handles[handle]? = some id) :
    s.finds handle name = none ↔ ∀ outer, r.OnChain id outer → ¬ r.Binds outer name := by
  rw [h.finds hhandle, Forest.lookup, List.findSome?_eq_none_iff]
  simp only [h.onChain_iff (h.present_of_handle hhandle), h.unbound]

/-- If something is found, there is a nearest frame. -/
theorem nearest_of_finds (h : Mirrors s r) (hhandle : r.handles[handle]? = some id)
    (hfound : s.finds handle name = some value) : ∃ owner, r.Nearest name id owner := by
  rw [h.finds hhandle] at hfound
  cases howner : s.forest.owner? id name with
  | none => cases (Forest.lookup_of_owner?_none howner).symm.trans hfound
  | some owner => exact ⟨owner, (h.nearest_iff (h.present_of_handle hhandle)).mpr howner⟩

/-- So a variable is read from there, or is undefined. -/
theorem get (h : Mirrors s r) (hhandle : r.handles[handle]? = some id) :
    (∀ value, s.finds handle token.lexeme = some value →
      s.serve (.get handle token) = (some (.value value), s)) ∧
    (s.finds handle token.lexeme = none →
      s.serve (.get handle token) = (some (.failed (.undefinedVariable token)), s)) := by
  rw [Handles.serve, h.withFrame hhandle, h.finds hhandle]
  constructor
  · intro value hvalue
    rw [hvalue]
  · intro hnone
    rw [hnone]

/-! ### What is written -/

/-- To give a name a value in a frame is seen from where the frame is reached. -/
theorem rewrites (h : Mirrors s r) (howner : s.forest.Present owner) {sees : FrameId → Prop}
    (hsees : ∀ id, sees id ↔ r.Reaches name id owner) :
    s.Rewrites { s with forest := s.forest.define owner name value } r name value sees where
  seen handle id hhandle hid := by
    rw [h.finds_in hhandle]
    obtain ⟨before, after, hsplit, hbefore⟩ :=
      (h.reaches_iff (h.present_of_handle hhandle)).mp ((hsees id).mp hid)
    exact Forest.lookup_define_of_reached howner hsplit hbefore
  unseen handle id hhandle hid := by
    rw [h.finds_in hhandle, h.finds hhandle]
    refine Forest.lookup_define_of_unreached howner fun before after hsplit => ?_
    by_contra hunbound
    refine hid ((hsees id).mpr ((h.reaches_iff (h.present_of_handle hhandle)).mpr
      ⟨before, after, hsplit, fun key hkey => ?_⟩))
    rw [← Option.not_isSome_iff_eq_none]
    exact fun hsome => hunbound ⟨key, hkey, hsome⟩
  others handle other hother := by
    rw [Handles.finds_eq, Handles.finds_eq]
    refine congrArg (Option.bind s.frames[handle]?) (funext fun id => ?_)
    exact Forest.lookup_define_of_ne hother

/-- Assigning adds no name. -/
theorem names_define_of_binds (h : Mirrors s r) (hbinds : r.Binds owner name) (id : FrameId) :
    (s.forest.define owner name value).names id = s.forest.names id := by
  by_cases hid : owner = id
  · subst hid
    obtain ⟨frame, hframe⟩ := h.present_of_binds hbinds
    have hname : name ∈ frame.bindings.names :=
      (Forest.isSome_local?_iff hframe).mp ((h.bound owner name).mpr hbinds)
    rw [Forest.names, Forest.names, Forest.frame?_define, if_pos rfl, hframe]
    exact (h.ordered owner frame hframe).names_insert_of_mem hname
  · exact Forest.names_define_of_ne hid

/-- An assignment is written to the nearest frame, and seen from all handles for which it is the
nearest. -/
theorem assign (h : Mirrors s r) (hhandle : r.handles[handle]? = some id) {found : α}
    (hfound : s.finds handle token.lexeme = some found) :
    ∃ owner after, r.Nearest token.lexeme id owner ∧
      s.serve (.assign handle token value) = (some .done, after) ∧
      s.Rewrites after r token.lexeme value (fun id' => r.Nearest token.lexeme id' owner) ∧
      ∀ handle', after.lists handle' = s.lists handle' := by
  obtain ⟨owner, hnearest⟩ := h.nearest_of_finds hhandle hfound
  have howner := (h.nearest_iff (h.present_of_handle hhandle)).mp hnearest
  refine ⟨owner, { s with forest := s.forest.define owner token.lexeme value }, hnearest, ?_,
    h.rewrites (h.present_of_binds hnearest.2) fun id' => and_iff_left hnearest.2,
    fun handle' => ?_⟩
  · rw [Handles.serve, h.withFrame hhandle, Forest.assign?, howner]
  · rw [Handles.lists_eq, Handles.lists_eq]
    refine congrArg (Option.elim s.frames[handle']? []) (funext fun id' => ?_)
    exact h.names_define_of_binds hnearest.2 id'

/-- Without such a frame the variable is undefined, and nothing changes. -/
theorem assign_fails (h : Mirrors s r) (hhandle : r.handles[handle]? = some id)
    (hnone : s.finds handle token.lexeme = none) :
    s.serve (.assign handle token value) = (some (.failed (.undefinedVariable token)), s) := by
  have howner : s.forest.owner? id token.lexeme = none := by
    rw [h.finds hhandle] at hnone
    cases howner : s.forest.owner? id token.lexeme with
    | none => rfl
    | some owner =>
      have hbound := Forest.local?_owner?_isSome howner
      rw [← Forest.lookup_of_owner? howner, hnone] at hbound
      cases hbound
  rw [Handles.serve, h.withFrame hhandle, Forest.assign?, howner]

/-- A definition is written to the frame of the handle, and seen from all handles that reach it.
-/
theorem define (h : Mirrors s r) (hhandle : r.handles[handle]? = some id) :
    ∃ after, s.serve (.define handle name value) = (some .done, after) ∧
      s.Rewrites after r name value (fun id' => r.Reaches name id' id) ∧
      ∀ handle' id', r.handles[handle']? = some id' →
        (id' ≠ id → after.lists handle' = s.lists handle') ∧
        (id' = id → ∀ other, other ∈ after.lists handle' ↔ other = name ∨ other ∈ s.lists handle') := by
  have hid := h.present_of_handle hhandle
  refine ⟨{ s with forest := s.forest.define id name value }, ?_, h.rewrites hid fun _ => Iff.rfl,
    fun handle' id' hhandle' => ?_⟩
  · rw [Handles.serve, h.withFrame hhandle]
  · rw [h.lists_in hhandle', h.lists hhandle']
    constructor
    · exact fun hne => Forest.names_define_of_ne hne.symm
    · rintro rfl other
      exact Forest.mem_names_define hid

/-! ### All laws -/

/-- Names are listed in the order of their bytes, each once. -/
theorem listed (h : Mirrors s r) (hhandle : r.handles[handle]? = some id) :
    (s.lists handle).Pairwise (fun a b => byteList a < byteList b) ∧
      ∀ name, name ∈ s.lists handle ↔ r.Binds id name := by
  rw [h.lists hhandle]
  constructor
  · obtain ⟨frame, hframe⟩ := h.present_of_handle hhandle
    rw [Forest.names, hframe]
    exact (h.ordered id frame hframe).byteList
  · intro name
    rw [Forest.mem_names_iff, h.bound]

/-- Handles are given out in order. -/
theorem numbered (h : Mirrors s r) {request : Handles.Request α} (hr : r.Takes request r')
    (hlonger : r.handles.length < r'.handles.length) :
    (s.serve request).1 = some (.handle r.handles.length) := by
  have hsize : s.frames.size = r.handles.length := by
    rw [← h.handles, Array.length_toList]
  rw [← hsize]
  cases hr with
  | new => rfl
  | child hhandle => rw [Handles.serve, h.withFrame hhandle, Handles.add]
  | clone hhandle => rw [Handles.serve, h.withFrame hhandle, Handles.add]
  | _ => exact absurd hlonger (Nat.lt_irrefl _)

/-- What mirrors a record obeys the laws of environments. -/
theorem obeys (h : Mirrors s r) : s.Obeys r where
  numbered _ _ hr hlonger := h.numbered hr hlonger
  lookup handle id name hhandle := by
    rw [Handles.serve, h.withFrame hhandle, h.finds hhandle]
  names handle id hhandle := by
    rw [Handles.serve, h.withFrame hhandle, h.lists hhandle]
  same handle other id id' hhandle hother := by
    rw [Handles.serve, h.withFrame hhandle, h.withFrame hother]
    rfl
  finds_nearest _ _ _ _ hhandle howner := h.finds_of_nearest hhandle howner
  finds_none _ _ _ hhandle := h.finds_none_iff hhandle
  get _ _ _ hhandle := h.get hhandle
  assign _ _ _ _ _ hhandle hfound := h.assign hhandle hfound
  assign_fails _ _ _ _ hhandle hnone := h.assign_fails hhandle hnone
  define _ _ _ _ hhandle := h.define hhandle
  aliases handle other _ hhandle hother requests :=
    Handles.serveAll_redirect ((h.frames handle).trans hhandle) ((h.frames other).trans hother)
      requests
  listed _ _ hhandle := h.listed hhandle

end Mirrors

/-! ## Every use of environments -/

/-- Every request is one of those that the record knows how to take. -/
theorem exists_takes (r : Record α) (request : Handles.Request α) : ∃ r', r.Takes request r' := by
  cases request with
  | new => exact ⟨_, .new⟩
  | child handle =>
    cases hhandle : r.handles[handle]? with
    | none => exact ⟨_, .noChild hhandle⟩
    | some id => exact ⟨_, .child hhandle⟩
  | clone handle =>
    cases hhandle : r.handles[handle]? with
    | none => exact ⟨_, .noClone hhandle⟩
    | some id => exact ⟨_, .clone hhandle⟩
  | define handle name value =>
    cases hhandle : r.handles[handle]? with
    | none => exact ⟨_, .noDefine hhandle⟩
    | some id => exact ⟨_, .define hhandle⟩
  | assign handle name value =>
    by_cases hnearest : ∃ id owner, r.handles[handle]? = some id ∧ r.Nearest name.lexeme id owner
    · obtain ⟨id, owner, hhandle, howner⟩ := hnearest
      exact ⟨_, .assign hhandle howner⟩
    · exact ⟨_, .noAssign fun id owner hhandle howner => hnearest ⟨id, owner, hhandle, howner⟩⟩
  | get handle name => exact ⟨_, .get⟩
  | lookup handle name => exact ⟨_, .lookup⟩
  | names handle => exact ⟨_, .names⟩
  | same handle other => exact ⟨_, .same⟩

/-- All requests can be recorded. -/
theorem exists_takesAll (r : Record α) (requests : List (Handles.Request α)) :
    ∃ r', r.TakesAll requests r' := by
  induction requests generalizing r with
  | nil => exact ⟨r, .nil⟩
  | cons request rest ih =>
    obtain ⟨r', hfirst⟩ := r.exists_takes request
    obtain ⟨r'', hrest⟩ := ih r'
    exact ⟨r'', .cons hfirst hrest⟩

/-- So a session leads to what it records, by induction on the requests. -/
theorem Mirrors.serveAll (h : Mirrors s r) {requests : List (Handles.Request α)}
    (hr : r.TakesAll requests r') : Mirrors (s.serveAll requests).2 r' := by
  induction hr generalizing s with
  | nil => exact h
  | cons hfirst _ ih => exact ih (h.serve hfirst)

end Record

/-- **The laws of scopes.** After every list of requests, whatever environments were made
inside of which, copied and written to, there is a record of the requests, and all handles
obey the laws of environments with that record: what is found, where an assignment and a
definition go and who sees them, which names are listed, and that copies of a handle make
no difference. -/
theorem Handles.obey_record {α : Type} (requests : List (Handles.Request α)) :
    (∃ r, Record.start.TakesAll requests r) ∧
      ∀ r, Record.start.TakesAll requests r →
        ((Handles.empty : Handles α).serveAll requests).2.Obeys r :=
  ⟨Record.start.exists_takesAll requests, fun _ hr => (Record.Mirrors.start.serveAll hr).obeys⟩

end Lox
