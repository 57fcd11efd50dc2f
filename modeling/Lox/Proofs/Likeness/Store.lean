/-
`Lox.Proofs.Likeness.Store` -- stores of related values.

Two tables are alike if they have the same names, and with each name values that are
related; two forests are alike if frame by frame they are, and each frame stands inside of
the same ones. What is found in one of them is then related to what is found in the other,
whatever is looked for, and they stay alike when related values are put in. Which frame
binds a name does not depend on the values at all.
-/
import Lox.Store.Forest
import Mathlib.Data.List.Forall2
import Mathlib.Data.Option.Basic

set_option autoImplicit false

namespace Lox

variable {α β : Type} {R : α → β → Prop}

/-! ## Options and arrays -/

/-- Related options are there both or neither. -/
theorem isSome_eq_of_rel {a : Option α} {b : Option β} (h : Option.Rel R a b) :
    a.isSome = b.isSome := by
  cases h <;> rfl

/-- A search through related lists ends at the same place. -/
theorem findSome?_rel {γ δ : Type} {S : γ → δ → Prop} {f : γ → Option α} {g : δ → Option β}
    (hf : ∀ c d, S c d → Option.Rel R (f c) (g d)) {cs : List γ} {ds : List δ}
    (h : List.Forall₂ S cs ds) : Option.Rel R (cs.findSome? f) (ds.findSome? g) := by
  induction h with
  | nil => exact .none
  | @cons c d cs ds hfirst hrest ih =>
    rw [List.findSome?_cons, List.findSome?_cons]
    have hfound := hf c d hfirst
    generalize f c = found at hfound
    generalize g d = found' at hfound
    cases hfound with
    | none => exact ih
    | some hvalue => exact .some hvalue

/-- The arrays have one length, and what they have at each index is related. -/
structure Pointwise (R : α → β → Prop) (as : Array α) (bs : Array β) : Prop where
  size : as.size = bs.size
  get? : ∀ i : Nat, Option.Rel R as[i]? bs[i]?

namespace Pointwise

variable {as : Array α} {bs : Array β}

theorem empty : Pointwise R #[] #[] :=
  ⟨rfl, fun _ => .none⟩

/-- Related entries may be put behind. -/
theorem push (h : Pointwise R as bs) {a : α} {b : β} (hab : R a b) :
    Pointwise R (as.push a) (bs.push b) := by
  refine ⟨by rw [Array.size_push, Array.size_push, h.size], fun i => ?_⟩
  rw [Array.getElem?_push, Array.getElem?_push, h.size]
  split
  · exact .some hab
  · exact h.get? i

/-- An entry may be changed on both sides. -/
theorem modify (h : Pointwise R as bs) (i : Nat) {f : α → α} {g : β → β}
    (hfg : ∀ a b, R a b → R (f a) (g b)) : Pointwise R (as.modify i f) (bs.modify i g) := by
  refine ⟨by rw [Array.size_modify, Array.size_modify, h.size], fun j => ?_⟩
  rw [Array.getElem?_modify, Array.getElem?_modify]
  have hj := h.get? j
  generalize as[j]? = found at hj
  generalize bs[j]? = found' at hj
  split
  · cases hj with
    | none => exact .none
    | some hab => exact .some (hfg _ _ hab)
  · exact hj

end Pointwise

/-! ## Tables -/

/-- The names are the same, and their values related. -/
def Table.Alike (R : α → β → Prop) (t : Table α) (t' : Table β) : Prop :=
  List.Forall₂ (fun entry entry' => entry.1 = entry'.1 ∧ R entry.2 entry'.2) t.entries t'.entries

namespace Table.Alike

variable {t : Table α} {t' : Table β}

theorem empty : Table.Alike R .empty .empty :=
  .nil

/-- Under a name both have something, and this is related, or neither has. -/
theorem find? (h : Table.Alike R t t') (name : String) :
    Option.Rel R (t.find? name) (t'.find? name) := by
  obtain ⟨entries⟩ := t
  obtain ⟨entries'⟩ := t'
  unfold Table.find?
  replace h : List.Forall₂ _ entries entries' := h
  induction h with
  | nil => exact .none
  | @cons entry entry' rest rest' hfirst hrest ih =>
    obtain ⟨other, value⟩ := entry
    obtain ⟨other', value'⟩ := entry'
    obtain ⟨rfl, hvalue⟩ : other = other' ∧ R value value' := hfirst
    simp only [search?]
    split
    · exact .some hvalue
    · exact ih

/-- A name may be bound on both sides. -/
theorem insert (h : Table.Alike R t t') (name : String) {value : α} {value' : β}
    (hvalue : R value value') : Table.Alike R (t.insert name value) (t'.insert name value') := by
  obtain ⟨entries⟩ := t
  obtain ⟨entries'⟩ := t'
  unfold Table.insert
  replace h : List.Forall₂ _ entries entries' := h
  unfold Table.Alike
  dsimp only
  induction h with
  | nil => exact .cons ⟨rfl, hvalue⟩ .nil
  | @cons entry entry' rest rest' hfirst hrest ih =>
    obtain ⟨other, old⟩ := entry
    obtain ⟨other', old'⟩ := entry'
    obtain ⟨rfl, hold⟩ : other = other' ∧ R old old' := hfirst
    simp only [insertEntry]
    split
    · exact .cons ⟨rfl, hvalue⟩ hrest
    · split
      · exact .cons ⟨rfl, hvalue⟩ (.cons ⟨rfl, hold⟩ hrest)
      · exact .cons ⟨rfl, hold⟩ ih

end Table.Alike

/-! ## Forests -/

/-- The frames have the same names, and stand inside of the same frames. -/
structure Frame.Alike (R : α → β → Prop) (frame : Frame α) (frame' : Frame β) : Prop where
  bindings : Table.Alike R frame.bindings frame'.bindings
  outer : frame.outer = frame'.outer

/-- Frame by frame the forests are alike. -/
def Forest.Alike (R : α → β → Prop) (f : Forest α) (f' : Forest β) : Prop :=
  Pointwise (Frame.Alike R) f.frames f'.frames

namespace Forest.Alike

variable {f : Forest α} {f' : Forest β}

/-- The next frame has one number. -/
theorem next (h : Forest.Alike R f f') : f.next = f'.next := by
  rw [Forest.next, Forest.next, h.size]

/-- A frame is there on both sides, or on neither. -/
theorem frame? (h : Forest.Alike R f f') (id : FrameId) :
    Option.Rel (Frame.Alike R) (f.frame? id) (f'.frame? id) :=
  h.get? id.index

/-- The frames around a frame are the same. -/
theorem chain (h : Forest.Alike R f f') (id : FrameId) : f.chain id = f'.chain id := by
  have hframe := h.frame? id
  unfold Forest.chain
  generalize f.frame? id = found at hframe
  generalize f'.frame? id = found' at hframe
  cases hframe with
  | none => rfl
  | some halike => exact congrArg _ halike.outer

/-- What a frame has itself is related. -/
theorem local? (h : Forest.Alike R f f') (id : FrameId) (name : String) :
    Option.Rel R (f.local? id name) (f'.local? id name) := by
  have hframe := h.frame? id
  unfold Forest.local?
  generalize f.frame? id = found at hframe
  generalize f'.frame? id = found' at hframe
  cases hframe with
  | none => exact .none
  | some halike => exact halike.bindings.find? name

/-- So is what is found from it on outwards. -/
theorem lookup (h : Forest.Alike R f f') (id : FrameId) (name : String) :
    Option.Rel R (f.lookup id name) (f'.lookup id name) := by
  unfold Forest.lookup
  rw [h.chain id]
  -- both look along one chain of frames
  refine findSome?_rel (S := Eq) ?_ (List.forall₂_eq_eq_eq ▸ rfl)
  rintro key _ rfl
  exact h.local? key name

/-- Which frame binds a name is a matter of the names alone. -/
theorem owner? (h : Forest.Alike R f f') (id : FrameId) (name : String) :
    f.owner? id name = f'.owner? id name := by
  unfold Forest.owner?
  rw [h.chain id]
  congr 1
  funext key
  exact isSome_eq_of_rel (h.local? key name)

/-- Binding a name keeps the forests alike. -/
theorem define (h : Forest.Alike R f f') (id : FrameId) (name : String) {value : α} {value' : β}
    (hvalue : R value value') :
    Forest.Alike R (f.define id name value) (f'.define id name value') := by
  unfold Forest.Alike Forest.define
  dsimp only
  refine Pointwise.modify h id.index ?_
  intro frame frame' hframe
  exact ⟨hframe.bindings.insert name hvalue, hframe.outer⟩

theorem addChild (h : Forest.Alike R f f') (id : FrameId) :
    Forest.Alike R (f.addChild id) (f'.addChild id) :=
  Pointwise.push h ⟨.empty, h.chain id⟩

/-- A single frame that binds nothing. -/
theorem root : Forest.Alike R (Forest.empty.addRoot) (Forest.empty.addRoot) :=
  Pointwise.push .empty ⟨.empty, rfl⟩

end Forest.Alike

end Lox
