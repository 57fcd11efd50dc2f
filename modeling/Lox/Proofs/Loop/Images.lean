/-
`Lox.Proofs.Loop.Images` -- forests with frames in between that bind nothing.

One forest may have all the frames of another one, in the same order and with related
values, and further frames in between. A frame that is extra binds nothing, so that from
it one sees what is to be seen from the frame around it: it stands for the frame that
this one stands for (`Images`). Look-ups in both forests then find related values, and
names are bound in frames that are paired, because no look-up ends in an extra frame.

The frames of the second forest are paired in the order in which they were made, each
with one frame of the first. That is what keeps apart what is written to different
frames.
-/
import Mathlib.Data.List.Nodup
import Lox.Proofs.Likeness.Store
import Lox.Proofs.Method.Keyword

set_option autoImplicit false

namespace Lox

/-- What a frame of the first forest stands for in the second one. -/
structure Image where
  frame : FrameId
  /-- The frame has no partner, but stands for that of a frame around it. -/
  extra : Bool

/-- What the frames of a forest stand for, in the order in which they were made. -/
abbrev Images := List Image

namespace Images

variable {w w' : Images} {id id' key key' : FrameId}

/-- What is seen from one frame is what is seen from the other one. -/
def StandsFor (w : Images) (id id' : FrameId) : Prop :=
  ∃ image, w[id.index]? = some image ∧ image.frame = id'

/-- The frames are partners. -/
def Pairs (w : Images) (id id' : FrameId) : Prop :=
  w[id.index]? = some ⟨id', false⟩

/-- The frame has no partner. -/
def Extra (w : Images) (id : FrameId) : Prop :=
  ∃ id', w[id.index]? = some ⟨id', true⟩

/-- The frames that have a partner in the first forest. -/
def partners (w : Images) : List FrameId :=
  w.filterMap fun image => if image.extra then none else some image.frame

/-- A frame stands for its partner. -/
theorem Pairs.standsFor (h : w.Pairs id id') : w.StandsFor id id' :=
  ⟨_, h, rfl⟩

/-- One without a partner stands for some frame too. -/
theorem Extra.standsFor (h : w.Extra id) : ∃ id', w.StandsFor id id' := by
  obtain ⟨id', hid⟩ := h
  exact ⟨id', _, hid, rfl⟩

/-- No frame is both. -/
theorem Pairs.not_extra (h : w.Pairs id id') : ¬ w.Extra id := by
  rintro ⟨other, hother⟩
  cases h.symm.trans hother

/-- A frame has one partner. -/
theorem Pairs.eq (h : w.Pairs id id') (h' : w.Pairs id key') : id' = key' := by
  cases h.symm.trans h'
  rfl

/-- No two frames have one partner. -/
theorem Pairs.eq_of_nodup (hnodup : w.partners.Nodup) (h : w.Pairs id id')
    (h' : w.Pairs key id') : id = key := by
  -- two places in the row at which the same frame stands
  have hapart : ∀ i j : Nat, i < j → w[i]? = some ⟨id', false⟩ → w[j]? ≠ some ⟨id', false⟩ := by
    intro i j hij hi hj
    obtain ⟨hilt, hival⟩ := List.getElem?_eq_some_iff.mp hi
    obtain ⟨hjlt, hjval⟩ := List.getElem?_eq_some_iff.mp hj
    have hne := List.pairwise_iff_getElem.mp (List.pairwise_filterMap.mp hnodup) i j hilt hjlt hij
    rw [hival, hjval] at hne
    exact hne id' rfl id' rfl rfl
  rcases Nat.lt_trichotomy id.index key.index with hlt | heq | hgt
  · exact absurd h' (hapart _ _ hlt h)
  · cases id
    cases key
    cases heq
    rfl
  · exact absurd h (hapart _ _ hgt h')

/-! ## Later images -/

/-- What a frame stands for is settled when it is made. -/
theorem getElem?_of_prefix (hw : w <+: w') {i : Nat} {image : Image} (h : w[i]? = some image) :
    w'[i]? = some image := by
  obtain ⟨later, rfl⟩ := hw
  rw [List.getElem?_append_left (List.getElem?_eq_some_iff.mp h).1, h]

/-- So it does not change when frames are made. -/
theorem StandsFor.later (h : w.StandsFor id id') (hw : w <+: w') : w'.StandsFor id id' := by
  obtain ⟨image, himage, hframe⟩ := h
  exact ⟨image, getElem?_of_prefix hw himage, hframe⟩

/-- Partners stay partners. -/
theorem Pairs.later (h : w.Pairs id id') (hw : w <+: w') : w'.Pairs id id' :=
  getElem?_of_prefix hw h

/-- Frames without a partner stay without. -/
theorem Extra.later (h : w.Extra id) (hw : w <+: w') : w'.Extra id := by
  obtain ⟨id', hid⟩ := h
  exact ⟨id', getElem?_of_prefix hw hid⟩

/-- The last image is the added one, and the others are as before. -/
theorem getElem?_concat_iff {i : Nat} {image added : Image} :
    (w ++ [added])[i]? = some image ↔ w[i]? = some image ∨ i = w.length ∧ added = image := by
  rcases Nat.lt_trichotomy i w.length with hlt | rfl | hgt
  · rw [List.getElem?_append_left hlt]
    simp [Nat.ne_of_lt hlt]
  · simp
  · rw [List.getElem?_append_right (Nat.le_of_lt hgt), List.getElem?_eq_none (Nat.le_of_lt hgt),
      List.getElem?_eq_none (Nat.sub_pos_of_lt hgt)]
    simp [Nat.ne_of_gt hgt]

section Concat

variable {added : Image}

/-- So an added image is what its own frame stands for. -/
theorem standsFor_concat : (w ++ [added]).StandsFor id id' ↔
    w.StandsFor id id' ∨ id.index = w.length ∧ added.frame = id' := by
  unfold StandsFor
  simp only [getElem?_concat_iff]
  constructor
  · rintro ⟨image, himage | ⟨hindex, rfl⟩, hframe⟩
    · exact .inl ⟨image, himage, hframe⟩
    · exact .inr ⟨hindex, hframe⟩
  · rintro (⟨image, himage, hframe⟩ | ⟨hindex, hframe⟩)
    · exact ⟨image, .inl himage, hframe⟩
    · exact ⟨added, .inr ⟨hindex, rfl⟩, hframe⟩

/-- It is a partner if it is not extra. -/
theorem pairs_concat : (w ++ [added]).Pairs id id' ↔
    w.Pairs id id' ∨ id.index = w.length ∧ added = ⟨id', false⟩ :=
  getElem?_concat_iff

/-- It is extra if it says so. -/
theorem extra_concat : (w ++ [added]).Extra id ↔
    w.Extra id ∨ id.index = w.length ∧ added.extra = true := by
  obtain ⟨frame, extra⟩ := added
  unfold Extra
  simp only [getElem?_concat_iff]
  simp [exists_or]

end Concat

/-! ## Chains of frames -/

/-- The frames are visited in the same order, but for those that are extra. -/
inductive Chained (w : Images) : List FrameId → List FrameId → Prop where
  | nil : Chained w [] []
  | paired {id id' : FrameId} {ids ids' : List FrameId} :
    w.Pairs id id' → Chained w ids ids' → Chained w (id :: ids) (id' :: ids')
  | extra {id : FrameId} {ids ids' : List FrameId} :
    w.Extra id → Chained w ids ids' → Chained w (id :: ids) ids'

namespace Chained

variable {ids ids' : List FrameId}

/-- Chains stay in step when frames are made. -/
theorem later (h : w.Chained ids ids') (hw : w <+: w') : w'.Chained ids ids' := by
  induction h with
  | nil => exact .nil
  | paired hpairs _ ih => exact .paired (hpairs.later hw) ih
  | extra hextra _ ih => exact .extra (hextra.later hw) ih

/-- A search through both chains finds what is related, if extra frames have nothing to be
found. -/
theorem findSome?_rel {α β : Type} {R : α → β → Prop} {g : FrameId → Option α}
    {g' : FrameId → Option β} (h : w.Chained ids ids')
    (hpairs : ∀ id id', w.Pairs id id' → Option.Rel R (g id) (g' id'))
    (hextra : ∀ id, w.Extra id → g id = none) :
    Option.Rel R (ids.findSome? g) (ids'.findSome? g') := by
  induction h with
  | nil => exact .none
  | @paired id id' ids ids' hid _ ih =>
    rw [List.findSome?_cons, List.findSome?_cons]
    have hfound := hpairs id id' hid
    generalize g id = found at hfound
    generalize g' id' = found' at hfound
    cases hfound with
    | none => exact ih
    | some hvalue => exact .some hvalue
  | @extra id ids ids' hid _ ih =>
    rw [List.findSome?_cons, hextra id hid]
    exact ih

/-- A test finds partners, if it passes over extra frames. -/
theorem find?_rel {q q' : FrameId → Bool} (h : w.Chained ids ids')
    (hpairs : ∀ id id', w.Pairs id id' → q id = q' id') (hextra : ∀ id, w.Extra id → q id = false) :
    Option.Rel w.Pairs (ids.find? q) (ids'.find? q') := by
  induction h with
  | nil => exact .none
  | @paired id id' ids ids' hid _ ih =>
    rw [List.find?_cons, List.find?_cons, hpairs id id' hid]
    cases q' id' with
    | true => exact .some hid
    | false => exact ih
  | @extra id ids ids' hid _ ih =>
    rw [List.find?_cons, hextra id hid]
    exact ih

end Chained

end Images

/-! ## Forests that match -/

namespace Forest

variable {α : Type} {f f' : Forest α} {w w' : Images} {R R' : α → α → Prop}
  {id id' parent parent' : FrameId} {name : String}

/-- Frames are there by number. -/
theorem present_iff : f.Present id ↔ id.index < f.frames.size := by
  unfold Present frame?
  constructor
  · rintro ⟨frame, hframe⟩
    exact (Array.getElem?_eq_some_iff.mp hframe).1
  · intro h
    exact ⟨_, Array.getElem?_eq_getElem h⟩

/-- The frames of the first forest stand for frames of the second one: partners hold
related values, extra frames nothing, and from frames of which one stands for the other
the same is visited. -/
structure Matches (R : α → α → Prop) (w : Images) (f f' : Forest α) : Prop where
  size : w.length = f.frames.size
  partners : w.partners = (List.range f'.frames.size).map FrameId.mk
  present : ∀ id id', w.StandsFor id id' → f'.Present id'
  bindings : ∀ id id', w.Pairs id id' → ∃ frame frame', f.frame? id = some frame ∧
    f'.frame? id' = some frame' ∧ Table.Alike R frame.bindings frame'.bindings
  bare : ∀ id, w.Extra id → ∃ frame, f.frame? id = some frame ∧ frame.bindings = .empty
  chain : ∀ id id', w.StandsFor id id' → w.Chained (f.chain id) (f'.chain id')

namespace Matches

/-- The values may be related more loosely. -/
theorem imp (h : Matches R w f f') (hR : ∀ a a', R a a' → R' a a') : Matches R' w f f' := by
  refine { h with bindings := fun id id' hid => ?_ }
  obtain ⟨frame, frame', hframe, hframe', halike⟩ := h.bindings id id' hid
  exact ⟨frame, frame', hframe, hframe', halike.imp fun _ _ hentry =>
    ⟨hentry.1, hR _ _ hentry.2⟩⟩

/-- A frame that stands for another one is there. -/
theorem present_of_standsFor (h : Matches R w f f') (hid : w.StandsFor id id') : f.Present id := by
  obtain ⟨image, himage, -⟩ := hid
  rw [present_iff, ← h.size]
  exact (List.getElem?_eq_some_iff.mp himage).1

/-- No frame of the second forest is a partner twice. -/
theorem nodup (h : Matches R w f f') : w.partners.Nodup := by
  rw [h.partners]
  refine List.Nodup.map ?_ List.nodup_range
  intro a b hab
  cases hab
  rfl

/-! ### Look-ups -/

/-- Partners hold related values. -/
theorem local? (h : Matches R w f f') (hid : w.Pairs id id') (name : String) :
    Option.Rel R (f.local? id name) (f'.local? id' name) := by
  obtain ⟨frame, frame', hframe, hframe', halike⟩ := h.bindings id id' hid
  rw [Forest.local?, Forest.local?, hframe, hframe', Option.bind_some, Option.bind_some]
  exact halike.find? name

/-- Extra frames hold nothing. -/
theorem local?_extra (h : Matches R w f f') (hid : w.Extra id) (name : String) :
    f.local? id name = none := by
  obtain ⟨frame, hframe, hbare⟩ := h.bare id hid
  rw [Forest.local?, hframe, Option.bind_some, hbare, Table.find?_empty]

/-- What is looked up from a frame and from the one that it stands for is related. -/
theorem lookup (h : Matches R w f f') (hid : w.StandsFor id id') (name : String) :
    Option.Rel R (f.lookup id name) (f'.lookup id' name) :=
  (h.chain id id' hid).findSome?_rel (fun _ _ hkey => h.local? hkey name)
    fun _ hkey => h.local?_extra hkey name

/-- The frames that bind a name are partners. -/
theorem owner? (h : Matches R w f f') (hid : w.StandsFor id id') (name : String) :
    Option.Rel w.Pairs (f.owner? id name) (f'.owner? id' name) := by
  refine (h.chain id id' hid).find?_rel (fun _ _ hkey => isSome_eq_of_rel (h.local? hkey name))
    fun key hkey => ?_
  rw [h.local?_extra hkey name]
  rfl

/-! ### What is done to both -/

/-- Related values are given to a name in frames that are partners. -/
theorem define (h : Matches R w f f') (hid : w.Pairs id id') (name : String) {value value' : α}
    (hvalue : R value value') :
    Matches R w (f.define id name value) (f'.define id' name value') where
  size := by
    show w.length = (f.frames.modify _ _).size
    rw [Array.size_modify, h.size]
  partners := by
    show w.partners = (List.range (f'.frames.modify _ _).size).map FrameId.mk
    rw [Array.size_modify, h.partners]
  present key key' hkey := present_define.mpr (h.present key key' hkey)
  -- a frame is written to exactly if its partner is, since no two share one
  bindings key key' hkey := by
    obtain ⟨frame, frame', hframe, hframe', halike⟩ := h.bindings key key' hkey
    rw [frame?_define, frame?_define, hframe, hframe']
    by_cases hsame : id = key
    · subst hsame
      rw [if_pos rfl, if_pos (hid.eq hkey)]
      exact ⟨_, _, rfl, rfl, halike.insert name hvalue⟩
    · have hother : id' ≠ key' := by
        rintro rfl
        exact hsame (hid.eq_of_nodup h.nodup hkey)
      rw [if_neg hsame, if_neg hother]
      exact ⟨frame, frame', rfl, rfl, halike⟩
  -- an extra frame has no partner and is not written to
  bare key hkey := by
    obtain ⟨frame, hframe, hbare⟩ := h.bare key hkey
    have hother : id ≠ key := by
      rintro rfl
      exact hid.not_extra hkey
    rw [frame?_define, if_neg hother]
    exact ⟨frame, hframe, hbare⟩
  chain key key' hkey := by
    rw [chain_define, chain_define]
    exact h.chain key key' hkey

/-- The next frame is the one behind all images. -/
theorem eq_next (h : Matches R w f f') (hid : id.index = w.length) : id = f.next := by
  rw [h.size] at hid
  exact congrArg FrameId.mk hid

/-- What stands for something already does so when there are further frames. -/
theorem chain_later (h : Matches R w f f') (hw : w <+: w') (hid : w.StandsFor id id') :
    w'.Chained ((f.addChild parent).chain id) (f'.chain id') := by
  rw [chain_addChild (h.present_of_standsFor hid)]
  exact (h.chain id id' hid).later hw

/-- A new frame in each of the forests, inside of frames of which one stands for the other. -/
theorem addChild (h : Matches R w f f') (hparent : w.StandsFor parent parent') :
    Matches R (w ++ [⟨f'.next, false⟩]) (f.addChild parent) (f'.addChild parent') where
  size := by
    show (w ++ [_]).length = (f.frames.push _).size
    rw [List.length_append, Array.size_push, h.size, List.length_singleton]
  partners := by
    show _ = (List.range (f'.frames.push _).size).map FrameId.mk
    rw [Array.size_push, List.range_succ, List.map_append, ← h.partners]
    exact List.filterMap_append
  present id id' hid := by
    rw [present_addChild]
    rcases Images.standsFor_concat.mp hid with hold | ⟨-, hnew⟩
    · exact .inl (h.present id id' hold)
    · exact .inr hnew.symm
  bindings id id' hid := by
    rcases Images.pairs_concat.mp hid with hold | ⟨hindex, hnew⟩
    · rw [frame?_addChild_of_ne (h.present_of_standsFor hold.standsFor).ne_next,
        frame?_addChild_of_ne (h.present id id' hold.standsFor).ne_next]
      exact h.bindings id id' hold
    · cases hnew
      rw [h.eq_next hindex, frame?_addChild_next, frame?_addChild_next]
      exact ⟨_, _, rfl, rfl, .empty⟩
  bare id hid := by
    rcases Images.extra_concat.mp hid with hold | ⟨-, hnew⟩
    · obtain ⟨_, hstands⟩ := hold.standsFor
      rw [frame?_addChild_of_ne (h.present_of_standsFor hstands).ne_next]
      exact h.bare id hold
    · cases hnew
  -- frames from before have their old chains, and the new one goes in front of its parent's
  chain id id' hid := by
    have hw : w <+: w ++ [⟨f'.next, false⟩] := List.prefix_append _ _
    rcases Images.standsFor_concat.mp hid with hold | ⟨hindex, hnew⟩
    · rw [chain_addChild (h.present id id' hold)]
      exact h.chain_later hw hold
    · cases hnew
      rw [h.eq_next hindex, chain_addChild_next, chain_addChild_next]
      refine .paired ?_ ((h.chain parent parent' hparent).later hw)
      exact Images.pairs_concat.mpr (.inr ⟨h.size.symm, rfl⟩)

/-- A new frame in the first forest only. -/
theorem addExtra (h : Matches R w f f') (hparent : w.StandsFor parent parent') :
    Matches R (w ++ [⟨parent', true⟩]) (f.addChild parent) f' where
  size := by
    show (w ++ [_]).length = (f.frames.push _).size
    rw [List.length_append, Array.size_push, h.size, List.length_singleton]
  partners := by
    rw [← h.partners, Images.partners, List.filterMap_append]
    exact List.append_nil _
  -- the extra frame stands for its parent's partner, so nothing is added to the second forest
  present id id' hid := by
    rcases Images.standsFor_concat.mp hid with hold | ⟨-, rfl⟩
    · exact h.present id id' hold
    · exact h.present parent _ hparent
  bindings id id' hid := by
    rcases Images.pairs_concat.mp hid with hold | ⟨-, hnew⟩
    · rw [frame?_addChild_of_ne (h.present_of_standsFor hold.standsFor).ne_next]
      exact h.bindings id id' hold
    · cases hnew
  bare id hid := by
    rcases Images.extra_concat.mp hid with hold | ⟨hindex, -⟩
    · obtain ⟨_, hstands⟩ := hold.standsFor
      rw [frame?_addChild_of_ne (h.present_of_standsFor hstands).ne_next]
      exact h.bare id hold
    · rw [h.eq_next hindex, frame?_addChild_next]
      exact ⟨_, rfl, rfl⟩
  chain id id' hid := by
    have hw : w <+: w ++ [⟨parent', true⟩] := List.prefix_append _ _
    rcases Images.standsFor_concat.mp hid with hold | ⟨hindex, rfl⟩
    · exact h.chain_later hw hold
    · rw [h.eq_next hindex, chain_addChild_next]
      refine .extra ?_ ((h.chain parent _ hparent).later hw)
      exact Images.extra_concat.mpr (.inr ⟨h.size.symm, rfl⟩)

end Matches

end Forest

end Lox
