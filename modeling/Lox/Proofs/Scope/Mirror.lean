/-
`Lox.Proofs.Scope.Mirror` -- frames that mirror scopes.

While a place in a program is being run, there is a frame for each scope around
it, and the frames stand inside one another as the scopes do. Such a frame binds
the names that its scope has declared before the place, and as long as the place is
not inside the body of a function, it binds no others.

In the body of a function the frames around it may have got further names since the
function was made. Which names those can be is known when a frame is created, from
the code that will run in it: that is the vocabulary of the frame. It never changes,
so what is said in terms of it about a function remains true until the function is
called.
-/
import Mathlib.Data.List.Forall2
import Lox.Proofs.Scope.Nesting

set_option autoImplicit false

namespace Lox

/-! ## Frames and chains -/

namespace Forest

variable {α : Type} {f f' : Forest α} {id key parent : FrameId} {frame : Frame α} {name : String}
  {value : α}

/-- A look-up visits a frame and then those around it. -/
theorem chain_of_frame? (h : f.frame? id = some frame) : f.chain id = id :: frame.outer := by
  rw [chain, h]

/-- A name with a value is in a frame. -/
theorem isSome_frame?_of_local? (h : (f.local? id name).isSome) : ∃ frame, f.frame? id = some frame := by
  cases hframe : f.frame? id with
  | none =>
    rw [local?, hframe] at h
    cases h
  | some frame => exact ⟨frame, rfl⟩

/-- The names of a frame are those with values. -/
theorem isSome_local?_iff (h : f.frame? id = some frame) :
    (f.local? id name).isSome ↔ name ∈ frame.bindings.names := by
  rw [local?, h, Option.bind_some, Table.mem_names_iff]

/-- Binding a name changes what is found for it in its frame, and nothing else. -/
theorem local?_define (hframe : f.frame? id = some frame) (key' : String) :
    (f.define id name value).local? key key' =
      if id = key ∧ key' = name then some value else f.local? key key' := by
  unfold local?
  rw [frame?_define]
  by_cases hid : id = key
  · subst hid
    rw [if_pos rfl, hframe, Option.map_some, Option.bind_some, Option.bind_some,
      Table.find?_insert]
    by_cases hname : key' = name <;> simp [hname]
  · rw [if_neg hid, if_neg fun h => hid h.1]

/-- A binding is the one that was made, or was there before. -/
theorem local?_define_cases {key' : String} {value' : α}
    (h : (f.define id name value).local? key key' = some value') :
    id = key ∧ key' = name ∧ value' = value ∨ f.local? key key' = some value' := by
  cases hframe : f.frame? id with
  | some frame =>
    rw [local?_define hframe] at h
    split at h
    · rename_i hsame
      rw [Option.some.injEq] at h
      exact .inl ⟨hsame.1, hsame.2, h.symm⟩
    · exact .inr h
  | none =>
    unfold local? at h ⊢
    rw [frame?_define] at h
    split at h
    · rename_i hsame
      rw [← hsame, hframe] at h
      cases h
    · exact .inr h

/-! ### New frames -/

/-- The frame that was added is the next one. -/
theorem frame?_push_next (added : Frame α) :
    (⟨f.frames.push added⟩ : Forest α).frame? f.next = some added :=
  Array.getElem?_push_size

/-- The others are as they were. -/
theorem frame?_push_of_ne (added : Frame α) (h : id ≠ f.next) :
    (⟨f.frames.push added⟩ : Forest α).frame? id = f.frame? id := by
  have hindex : id.index ≠ f.frames.size := by
    intro heq
    apply h
    cases id
    cases heq
    rfl
  show (f.frames.push _)[id.index]? = f.frames[id.index]?
  rw [Array.getElem?_push, if_neg hindex]

/-- The frame that was made is empty and stands inside of the other. -/
theorem frame?_addChild_next : (f.addChild parent).frame? f.next = some ⟨.empty, f.chain parent⟩ :=
  frame?_push_next _

/-- All others are as they were. -/
theorem frame?_addChild_of_ne (h : id ≠ f.next) : (f.addChild parent).frame? id = f.frame? id :=
  frame?_push_of_ne _ h

/-- A further frame in which nothing is bound. -/
theorem local?_push_bare (outer : List FrameId) :
    (⟨f.frames.push ⟨.empty, outer⟩⟩ : Forest α).local? id name = f.local? id name := by
  unfold local?
  by_cases hid : id = f.next
  · rw [hid, frame?_push_next, frame?_next]
    rfl
  · rw [frame?_push_of_ne _ hid]

/-- A frame that was made has nothing in it, so the same is found in all frames. -/
theorem local?_addChild : (f.addChild parent).local? id name = f.local? id name :=
  local?_push_bare _

/-- In a single new frame nothing is bound. -/
theorem local?_addRoot_empty : (empty : Forest α).addRoot.local? id name = none := by
  unfold local? frame? addRoot empty
  rw [Array.getElem?_push]
  split <;> rfl

/-- From it a look-up goes on to what it stands inside of. -/
theorem chain_addChild_next : (f.addChild parent).chain f.next = f.next :: f.chain parent :=
  chain_of_frame? frame?_addChild_next

/-! ### Growing -/

namespace Grows

variable {may : FrameId → String → Prop}

/-- A frame that is there stays there. -/
theorem frame? (h : f.Grows may f') (hframe : f.frame? id = some frame) :
    ∃ frame', f'.frame? id = some frame' := by
  obtain ⟨frame', hframe', -⟩ := h id frame hframe
  exact ⟨frame', hframe'⟩

/-- It stays where it stands. -/
theorem chain (h : f.Grows may f') (hframe : f.frame? id = some frame) :
    f'.chain id = f.chain id := by
  obtain ⟨frame', hframe', hgrows⟩ := h id frame hframe
  rw [chain_of_frame? hframe, chain_of_frame? hframe', hgrows.outer]

/-- It loses no name. -/
theorem local? (h : f.Grows may f') (hbound : (f.local? id name).isSome) :
    (f'.local? id name).isSome := by
  obtain ⟨frame, hframe⟩ := isSome_frame?_of_local? hbound
  obtain ⟨frame', hframe', hgrows⟩ := h id frame hframe
  exact (isSome_local?_iff hframe').mpr (hgrows.kept _ ((isSome_local?_iff hframe).mp hbound))

/-- A name that is bound later on was bound before, or may be. -/
theorem local?_cases (h : f.Grows may f') (hframe : f.frame? id = some frame)
    (hbound : (f'.local? id name).isSome) : (f.local? id name).isSome ∨ may id name := by
  obtain ⟨frame', hframe', hgrows⟩ := h id frame hframe
  rw [isSome_local?_iff hframe]
  exact hgrows.added _ ((isSome_local?_iff hframe').mp hbound)

end Grows

end Forest

/-! ## Mirrors -/

/-- The names that may ever be bound in each frame. -/
abbrev Vocabulary := FrameId → List String

/-- The vocabulary with the names of one more frame. -/
def Vocabulary.extend (V : Vocabulary) (id : FrameId) (names : List String) : Vocabulary :=
  fun key => if key = id then names else V key

variable {V V' V'' : Vocabulary} {f f' f'' : Forest Value}

/-- The frame mirrors the scope: it binds what has been declared, nothing else as
long as no body of a function is between, and nothing but what is declared in the
scope at all. -/
structure Scope.Mirrored (V : Vocabulary) (f : Forest Value) (id : FrameId) (scope : Scope) :
    Prop where
  present : ∃ frame, f.frame? id = some frame
  bound : ∀ name ∈ scope.before, (f.local? id name).isSome
  exact : scope.crossed = false → ∀ name, (f.local? id name).isSome → name ∈ scope.before
  room : scope.crossed = true → ∀ name ∈ V id, name ∈ scope.before ∨ name ∈ scope.behind

/-- The frames that a look-up visits mirror the scopes, one by one, and behind them
is the global frame. -/
structure Nesting.Mirrored (V : Vocabulary) (f : Forest Value) (id : FrameId)
    (ids : List FrameId) (around : Nesting) : Prop where
  present : ∃ frame, f.frame? id = some frame
  chain : f.chain id = ids ++ [Machine.globals]
  nodup : (ids ++ [Machine.globals]).Nodup
  scopes : List.Forall₂ (Scope.Mirrored V f) ids around

/-- Later on: no frame has lost a name or come to stand elsewhere, and each has the
vocabulary it had. -/
structure Later (V : Vocabulary) (f : Forest Value) (V' : Vocabulary) (f' : Forest Value) :
    Prop where
  grows : f.Grows (fun _ _ => True) f'
  same : ∀ id frame, f.frame? id = some frame → V' id = V id

namespace Later

protected theorem refl (V : Vocabulary) (f : Forest Value) : Later V f V f :=
  ⟨.refl f, fun _ _ _ => rfl⟩

/-- What is later than something later is later. -/
protected theorem trans (h : Later V f V' f') (h' : Later V' f' V'' f'') : Later V f V'' f'' := by
  refine ⟨h.grows.trans h'.grows, fun id frame hframe => ?_⟩
  obtain ⟨frame', hframe'⟩ := h.grows.frame? hframe
  rw [h'.same id frame' hframe', h.same id frame hframe]

/-- A new frame, with names that may be bound in it. -/
theorem newFrame (V : Vocabulary) (f : Forest Value) (parent : FrameId) (names : List String) :
    Later V f (V.extend f.next names) (f.addChild parent) :=
  ⟨.push _ _, fun _ _ hframe => if_neg (Forest.ne_next_of_some hframe)⟩

/-- A forest that has only grown is a later one. -/
theorem of_grows {may : FrameId → String → Prop} (h : f.Grows may f') : Later V f V f' :=
  ⟨h.mono fun _ _ _ _ => trivial, fun _ _ _ => rfl⟩

/-- So is one in which a name has been bound. -/
theorem define (V : Vocabulary) (f : Forest Value) (id : FrameId) (name : String) (value : Value) :
    Later V f V (f.define id name value) :=
  ⟨.define _ _ _ _ (.inr trivial), fun _ _ _ => rfl⟩

end Later

section Mirrored

variable {id : FrameId} {ids : List FrameId} {scope : Scope} {around : Nesting}

/-- A frame goes on to mirror its scope if nothing new is bound in it, or if the body of a
function is between. -/
theorem Scope.Mirrored.later (h : scope.Mirrored V f id) (hlater : Later V f V' f')
    (hkept : scope.crossed = false →
      ∀ name, (f'.local? id name).isSome → (f.local? id name).isSome) :
    scope.Mirrored V' f' id := by
  obtain ⟨frame, hframe⟩ := h.present
  refine ⟨hlater.grows.frame? hframe, fun name hname => hlater.grows.local? (h.bound name hname),
    fun hcrossed name hname => h.exact hcrossed name (hkept hcrossed name hname), ?_⟩
  rw [hlater.same id frame hframe]
  exact h.room

/-- The same for the scopes around a place. -/
theorem Scope.Mirrored.later_each {around : Nesting} (h : List.Forall₂ (Scope.Mirrored V f) ids around)
    (hlater : Later V f V' f')
    (hkept : ∀ key ∈ ids, ∀ scope ∈ around, scope.crossed = false →
      ∀ name, (f'.local? key name).isSome → (f.local? key name).isSome) :
    List.Forall₂ (Scope.Mirrored V' f') ids around := by
  induction h with
  | nil => exact .nil
  | cons hscope _ ih =>
    refine .cons (hscope.later hlater (hkept _ List.mem_cons_self _ List.mem_cons_self)) ?_
    exact ih fun key hkey scope hscope =>
      hkept key (List.mem_cons_of_mem _ hkey) scope (List.mem_cons_of_mem _ hscope)

namespace Nesting.Mirrored

/-- The mirrors stay as long as the frames get no names, except behind a body of a
function. -/
theorem later (h : around.Mirrored V f id ids) (hlater : Later V f V' f')
    (hkept : ∀ key ∈ ids, ∀ name, (f'.local? key name).isSome → (f.local? key name).isSome) :
    around.Mirrored V' f' id ids := by
  obtain ⟨frame, hframe⟩ := h.present
  refine ⟨hlater.grows.frame? hframe, (hlater.grows.chain hframe).trans h.chain, h.nodup, ?_⟩
  exact Scope.Mirrored.later_each h.scopes hlater fun key hkey _ _ _ => hkept key hkey

/-- Frames that only mirror scopes outside of a body do so whatever is bound. -/
theorem later_of_crossed (h : around.Mirrored V f id ids) (hlater : Later V f V' f')
    (hcrossed : ∀ scope ∈ around, scope.crossed = true) : around.Mirrored V' f' id ids := by
  obtain ⟨frame, hframe⟩ := h.present
  refine ⟨hlater.grows.frame? hframe, (hlater.grows.chain hframe).trans h.chain, h.nodup, ?_⟩
  refine Scope.Mirrored.later_each h.scopes hlater fun _ _ scope hscope hfalse => ?_
  rw [hcrossed scope hscope] at hfalse
  cases hfalse

end Nesting.Mirrored

/-! ### Moving inwards and onwards -/

namespace Nesting

theorem declare_nil (around : Nesting) : around.declare [] = around := by
  cases around with
  | nil => rfl
  | cons scope around => rw [declare, List.append_nil]

/-- What is declared later may be declared now as well. -/
theorem ahead_declare (names names' : List String) :
    (around.ahead names').declare names = (around.declare names).ahead names' := by
  cases around <;> rfl

/-- Behind the body of a function all scopes are outside of it. -/
theorem crossed_of_mem_cross (h : scope ∈ around.cross) : scope.crossed = true := by
  obtain ⟨scope, -, rfl⟩ := List.mem_map.mp h
  rfl

/-- Code runs in the innermost scope: no body of a function is between. -/
def Inside (around : Nesting) : Prop :=
  ∀ scope ∈ around.head?, scope.crossed = false

/-- What is declared behind does not change where code runs. -/
theorem inside_ahead {names : List String} : (around.ahead names).Inside ↔ around.Inside := by
  cases around <;> simp [Inside, ahead]

theorem inside_declare {names : List String} : (around.declare names).Inside ↔ around.Inside := by
  cases around <;> simp [Inside, declare]

/-- What may be bound in the frames is declared in the scopes, now or behind. -/
def Room (V : Vocabulary) (ids : List FrameId) (around : Nesting) : Prop :=
  List.Forall₂ (fun id scope => ∀ name ∈ V id, name ∈ scope.before ∨ name ∈ scope.behind) ids around

namespace Mirrored

/-- A frame inside another one, which mirrors one more scope. -/
theorem enter {key : FrameId} (h : around.Mirrored V f id ids)
    (hchain : f.chain key = key :: f.chain id) (hfresh : key ∉ ids ++ [Machine.globals])
    (hscope : scope.Mirrored V f key) : Nesting.Mirrored V f key (key :: ids) (scope :: around) := by
  refine ⟨hscope.present, ?_, List.nodup_cons.mpr ⟨hfresh, h.nodup⟩, .cons hscope h.scopes⟩
  rw [hchain, h.chain, List.cons_append]

/-- The frames that mirror scopes are there. -/
theorem present_of_mem (h : around.Mirrored V f id ids) {key : FrameId} (hkey : key ∈ ids) :
    ∃ frame, f.frame? key = some frame := by
  have hscopes := h.scopes
  clear h
  induction hscopes with
  | nil => cases hkey
  | cons hscope _ ih =>
    rcases List.mem_cons.mp hkey with rfl | hkey
    · exact hscope.present
    · exact ih hkey

/-- The next frame is none of those that a look-up visits. -/
theorem next_not_mem (h : around.Mirrored V f id ids)
    (hroot : ∃ frame, f.frame? Machine.globals = some frame) :
    f.next ∉ ids ++ [Machine.globals] := by
  rw [List.mem_append, List.mem_singleton]
  rintro (hmem | heq)
  · obtain ⟨frame, hframe⟩ := h.present_of_mem hmem
    exact Forest.ne_next_of_some hframe rfl
  · obtain ⟨frame, hframe⟩ := hroot
    exact Forest.ne_next_of_some hframe heq.symm

/-- The next frame, which was created inside the others, mirrors one more scope. -/
theorem enter_next {names : List String} (h : around.Mirrored V f id ids)
    (hroot : ∃ frame, f.frame? Machine.globals = some frame)
    (hlater : Later (V.extend f.next names) (f.addChild id) V' f')
    (haround : around.Mirrored V' f' id ids) (hscope : scope.Mirrored V' f' f.next) :
    Nesting.Mirrored V' f' f.next (f.next :: ids) (scope :: around) := by
  refine haround.enter ?_ (h.next_not_mem hroot) hscope
  rw [hlater.grows.chain Forest.frame?_addChild_next, Forest.chain_addChild_next, haround.chain,
    h.chain]

/-- The scope of a block or of a function, when just these names have been bound in
its frame. -/
theorem enter_scope {names names' : List String} (h : around.Mirrored V f id ids)
    (hroot : ∃ frame, f.frame? Machine.globals = some frame)
    (hlater : Later (V.extend f.next names') (f.addChild id) V' f')
    (haround : around.Mirrored V' f' id ids)
    (hbound : ∀ name, (f'.local? f.next name).isSome ↔ name ∈ names) :
    (around.enter names).Mirrored V' f' f.next (f.next :: ids) := by
  refine h.enter_next hroot hlater haround ⟨hlater.grows.frame? Forest.frame?_addChild_next,
    fun name => (hbound name).mpr, fun _ name => (hbound name).mp, fun hcrossed => ?_⟩
  cases hcrossed

/-- In the frame of a block nothing is bound at first. -/
theorem enter_block (h : around.Mirrored V f id ids)
    (hroot : ∃ frame, f.frame? Machine.globals = some frame) (names : List String) :
    (around.enter []).Mirrored (V.extend f.next names) (f.addChild id) f.next (f.next :: ids) := by
  have hlater := Later.newFrame V f id names
  have hlocal : ∀ name, ((f.addChild id).local? f.next name) = none := by
    intro name
    rw [Forest.local?_addChild, Forest.local?, Forest.frame?_next, Option.bind_none]
  refine h.enter_scope hroot (.refl _ _) (h.later hlater fun key _ name hname => ?_) fun name => ?_
  · rwa [Forest.local?_addChild] at hname
  · simp [hlocal]

/-- The scope of a keyword, when it has been bound in its frame. -/
theorem enter_keyword (h : around.Mirrored V f id ids)
    (hroot : ∃ frame, f.frame? Machine.globals = some frame)
    (hcrossed : ∀ scope ∈ around, scope.crossed = true) (name : String) (value : Value) :
    Nesting.Mirrored (V.extend f.next [name]) ((f.addChild id).define f.next name value) f.next
      (f.next :: ids) (⟨[name], [], true⟩ :: around) := by
  have hframe : (f.addChild id).frame? f.next = some ⟨.empty, f.chain id⟩ :=
    Forest.frame?_addChild_next
  have hdefine := Later.define (V.extend f.next [name]) (f.addChild id) f.next name value
  have hlater := (Later.newFrame V f id [name]).trans hdefine
  refine h.enter_next hroot hdefine (h.later_of_crossed hlater hcrossed) ?_
  refine ⟨hdefine.grows.frame? hframe, fun key hkey => ?_, fun hfalse => ?_, fun _ key hkey => ?_⟩
  · rw [List.mem_singleton] at hkey
    rw [Forest.local?_define hframe, if_pos ⟨rfl, hkey⟩]
    rfl
  · cases hfalse
  · rw [Vocabulary.extend, if_pos rfl] at hkey
    exact .inl hkey

/-- The innermost frame is where the look-up begins. -/
theorem head_eq (h : around.Mirrored V f id ids) : ∀ key ∈ ids.head?, key = id := by
  intro key hkey
  obtain ⟨frame, hframe⟩ := h.present
  have hchain := h.chain
  cases ids with
  | nil => cases hkey
  | cons first rest =>
    cases hkey
    rw [Forest.chain_of_frame? hframe, List.cons_append, List.cons.injEq] at hchain
    exact hchain.1.symm

/-- Where there is no scope around, the frame is the global one. -/
theorem eq_globals (h : around.Mirrored V f id []) : id = Machine.globals := by
  obtain ⟨frame, hframe⟩ := h.present
  have hchain := h.chain
  rw [Forest.chain_of_frame? hframe, List.nil_append, List.cons.injEq] at hchain
  exact hchain.1

/-- Past some declarations, when they have been run: only these names have been
added, and only to the innermost frame. -/
theorem declare {names : List String} (h : around.Mirrored V f id ids) (hinside : around.Inside)
    (hlater : Later V f V' f')
    (hgrows : f.Grows (fun key name => key = id ∧ name ∈ names) f')
    (hbound : ∀ name ∈ names, (f'.local? id name).isSome) :
    (around.declare names).Mirrored V' f' id ids := by
  obtain ⟨frame, hframe⟩ := h.present
  refine ⟨hlater.grows.frame? hframe, (hlater.grows.chain hframe).trans h.chain, h.nodup, ?_⟩
  have hhead := h.head_eq
  have hpresent : ∀ key ∈ ids, ∃ frame, f.frame? key = some frame := fun _ => h.present_of_mem
  have hnodup := h.nodup
  have hscopes := h.scopes
  cases hscopes with
  | nil => exact .nil
  | @cons key scope ids around hscope htail =>
    obtain rfl := hhead key rfl
    refine .cons ⟨hlater.grows.frame? hframe, ?_, fun _ name hname => ?_, fun hcrossed => ?_⟩ ?_
    · intro name hname
      rcases List.mem_append.mp hname with hname | hname
      · exact hlater.grows.local? (hscope.bound name hname)
      · exact hbound name hname
    · rw [List.mem_append]
      rcases hgrows.local?_cases hframe hname with hname | hname
      · exact .inl (hscope.exact (hinside scope rfl) name hname)
      · exact .inr hname.2
    · rw [show scope.crossed = false from hinside scope rfl] at hcrossed
      cases hcrossed
    · -- the other frames are not the innermost one, so they have got no names
      refine Scope.Mirrored.later_each htail hlater fun other hother _ _ _ name hname => ?_
      obtain ⟨frame, hframe⟩ := hpresent other (List.mem_cons_of_mem _ hother)
      refine (hgrows.local?_cases hframe hname).resolve_right fun hmay => ?_
      have hmem : key ∈ ids ++ [Machine.globals] := List.mem_append_left _ (hmay.1 ▸ hother)
      exact (List.nodup_cons.mp hnodup).1 hmem

/-- Past one declaration, when its name has been bound. -/
theorem define (h : around.Mirrored V f id ids) (hinside : around.Inside) (name : String)
    (value : Value) : (around.declare [name]).Mirrored V (f.define id name value) id ids := by
  have hgrows : f.Grows (fun key key' => key = id ∧ key' ∈ [name]) (f.define id name value) :=
    .define _ _ _ _ (.inr ⟨rfl, List.mem_singleton.mpr rfl⟩)
  refine h.declare hinside (.of_grows hgrows) hgrows fun key hkey => ?_
  obtain ⟨frame, hframe⟩ := h.present
  rw [Forest.local?_define hframe, if_pos ⟨rfl, List.mem_singleton.mp hkey⟩]
  rfl

/-- In the innermost scope it does not matter what is declared behind. -/
theorem ahead_iff {names : List String} (hinside : around.Inside) :
    (around.ahead names).Mirrored V f id ids ↔ around.Mirrored V f id ids := by
  cases around with
  | nil => rfl
  | cons scope around =>
    have hcrossed : scope.crossed = false := hinside scope rfl
    have hscope : ∀ key, Scope.Mirrored V f key { scope with behind := names } ↔
        scope.Mirrored V f key := by
      intro key
      constructor
      · exact fun h => ⟨h.present, h.bound, h.exact, fun htrue => absurd htrue (by simp [hcrossed])⟩
      · exact fun h => ⟨h.present, h.bound, h.exact, fun htrue => absurd htrue (by simp [hcrossed])⟩
    constructor
    · intro h
      refine ⟨h.present, h.chain, h.nodup, ?_⟩
      cases h.scopes with
      | cons hhead htail => exact .cons ((hscope _).mp hhead) htail
    · intro h
      refine ⟨h.present, h.chain, h.nodup, ?_⟩
      cases h.scopes with
      | cons hhead htail => exact .cons ((hscope _).mpr hhead) htail

/-- Into the body of a function. -/
theorem cross (h : around.Mirrored V f id ids) (hroom : around.Room V ids) :
    around.cross.Mirrored V f id ids := by
  refine ⟨h.present, h.chain, h.nodup, ?_⟩
  have hscopes := h.scopes
  clear h
  induction hscopes with
  | nil => exact .nil
  | cons hscope _ ih =>
    cases hroom with
    | cons hfirst hrest =>
      refine .cons ⟨hscope.present, hscope.bound, fun hfalse => ?_, fun _ => hfirst⟩ (ih hrest)
      cases hfalse

/-- Outside of the body of a function nothing unknown may be bound. -/
theorem room_of_crossed (h : around.Mirrored V f id ids)
    (hcrossed : ∀ scope ∈ around, scope.crossed = true) : around.Room V ids := by
  have hscopes := h.scopes
  clear h
  induction hscopes with
  | nil => exact .nil
  | cons hscope _ ih =>
    refine .cons (hscope.room (hcrossed _ List.mem_cons_self)) (ih fun scope hmem => ?_)
    exact hcrossed scope (List.mem_cons_of_mem _ hmem)

end Mirrored

/-! ### What may be declared -/

/-- Code may run that declares these names: it runs in the innermost scope, whose
frame may get them, and all that may be bound in the frames around is known. -/
structure Admits (V : Vocabulary) (ids : List FrameId) (around : Nesting) (names : List String) :
    Prop where
  inside : around.Inside
  room : (around.declare names).Room V ids
  names : ∀ key ∈ ids.head?, ∀ name ∈ names, name ∈ V key

/-- Only the names of these frames matter. -/
theorem Room.congr (h : around.Room V ids) (hsame : ∀ key ∈ ids, V' key = V key) :
    around.Room V' ids := by
  induction h with
  | nil => exact .nil
  | cons hscope _ ih =>
    refine .cons ?_ (ih fun key hkey => hsame key (List.mem_cons_of_mem _ hkey))
    rwa [hsame _ List.mem_cons_self]

/-- At the top of a program anything may be declared. -/
theorem admits_nil (V : Vocabulary) (names : List String) : Admits V [] [] names where
  inside _ hscope := by cases hscope
  room := .nil
  names _ hkey := by cases hkey

namespace Admits

variable {names names' : List String}

/-- Frames that are there keep their vocabulary. -/
theorem later (h : around.Admits V ids names)
    (hpresent : ∀ key ∈ ids, ∃ frame, f.frame? key = some frame) (hlater : Later V f V' f') :
    around.Admits V' ids names := by
  have hsame : ∀ key ∈ ids, V' key = V key := by
    intro key hkey
    obtain ⟨frame, hframe⟩ := hpresent key hkey
    exact hlater.same key frame hframe
  refine ⟨h.inside, h.room.congr hsame, fun key hkey => ?_⟩
  rw [hsame key (List.mem_of_mem_head? hkey)]
  exact h.names key hkey

/-- Where no names are to be declared there is room. -/
theorem room_nil (h : around.Admits V ids []) : around.Room V ids := by
  have hroom := h.room
  rwa [declare_nil] at hroom

/-- What is declared in the innermost frame is in its vocabulary. -/
theorem mem_vocabulary (h : around.Admits V ids names) (hmirrored : around.Mirrored V f id ids)
    {name : String} (hname : name ∈ names) : id ≠ Machine.globals → name ∈ V id := by
  intro hne
  cases ids with
  | nil =>
    have hscopes := hmirrored.scopes
    cases hscopes
    exact absurd hmirrored.eq_globals hne
  | cons key ids =>
    have hhead : key = id := hmirrored.head_eq key rfl
    exact hhead ▸ h.names key rfl name hname

/-- Of two groups of declarations the first, with the second behind it. -/
theorem first (h : (around.ahead []).Admits V ids (names ++ names')) :
    (around.ahead names').Admits V ids names := by
  refine ⟨inside_ahead.mpr (inside_ahead.mp h.inside), ?_, fun key hkey name hname =>
    h.names key hkey name (List.mem_append_left _ hname)⟩
  have hroom := h.room
  cases around with
  | nil => exact hroom
  | cons scope around =>
    cases hroom with
    | cons hfirst hrest =>
      refine .cons (fun name hname => ?_) hrest
      have hmem := hfirst name hname
      simp only [List.mem_append, List.not_mem_nil, or_false] at hmem ⊢
      tauto

/-- The second, with the first before it. -/
theorem rest (h : (around.ahead []).Admits V ids (names ++ names')) :
    ((around.declare names).ahead []).Admits V ids names' := by
  refine ⟨inside_ahead.mpr (inside_declare.mpr (inside_ahead.mp h.inside)), ?_,
    fun key hkey name hname => h.names key hkey name (List.mem_append_right _ hname)⟩
  have hroom := h.room
  cases around with
  | nil => exact hroom
  | cons scope around =>
    cases hroom with
    | cons hfirst hrest =>
      refine .cons (fun name hname => ?_) hrest
      have hmem := hfirst name hname
      simp only [List.mem_append, List.not_mem_nil, or_false] at hmem ⊢
      tauto

end Admits

/-- In a new scope code may declare what the frame was created for. -/
theorem Room.admits_enter {key : FrameId} (h : around.Room V ids) (hfresh : key ∉ ids)
    (names names' : List String) :
    ((around.enter names).ahead []).Admits (V.extend key (names ++ names')) (key :: ids) names' := by
  refine ⟨fun scope hscope => ?_, .cons (fun name hname => ?_) (h.congr fun key' hkey' => ?_),
    fun key' hkey' name hname => ?_⟩
  · cases hscope
    rfl
  · rw [Vocabulary.extend, if_pos rfl] at hname
    exact .inl hname
  · rw [Vocabulary.extend, if_neg]
    rintro rfl
    exact hfresh hkey'
  · cases hkey'
    rw [Vocabulary.extend, if_pos rfl]
    exact List.mem_append_right _ hname

end Nesting

end Mirrored

/-! ## Values -/

section Placed

-- what is known of the uses of variables in the whole program
variable (U : Use → Prop)

/-- The function is one of the program, seen from some scopes. -/
structure FunctionDecl.Fits (around : Nesting) (decl : FunctionDecl) : Prop where
  uses : ∀ u ∈ decl.uses around, U u
  contained : decl.Contained

variable {U} in
/-- What is known of a function is known of the statements of its body. -/
theorem FunctionDecl.Fits.body {around : Nesting} {decl : FunctionDecl} (h : decl.Fits U around) :
    (∀ u ∈ Stmt.usesEach (around.enter (decl.params.map Token.lexeme)) decl.body, U u) ∧
      Stmt.AllContained decl.body := by
  cases decl
  exact ⟨h.uses, h.contained⟩

/-- The frame around a function mirrors the scopes around its body, all of which
are outside of that body. -/
def Closure.Placed (V : Vocabulary) (f : Forest Value) (fn : Closure) : Prop :=
  ∃ ids around, Nesting.Mirrored V f fn.frame ids around ∧
    (∀ scope ∈ around, scope.crossed = true) ∧ fn.decl.Fits U around

/-- The same for a method that has not been given its receiver. -/
def Closure.PlacedMethod (V : Vocabulary) (f : Forest Value) (fn : Closure) : Prop :=
  ∃ ids around, Nesting.Mirrored V f fn.frame ids around ∧
    (∀ scope ∈ around, scope.crossed = true) ∧ fn.decl.Fits U around.receiver

/-- All methods of a class, inherited ones too. -/
def Class.Placed (V : Vocabulary) (f : Forest Value) (cls : Class) : Prop :=
  ∀ body ∈ cls.lineage, ∀ name fn, body.methods.find? name = some fn → fn.PlacedMethod U V f

/-- The functions that a value is made of. -/
def Value.Placed (V : Vocabulary) (f : Forest Value) : Value → Prop
  | .function _ fn => fn.Placed U V f
  | .classRef cls | .instanceOf cls _ => cls.Placed U V f
  | .nil | .bool _ | .number _ | .text _ | .host _ => True

variable {U} {fn : Closure} {cls : Class} {value : Value}

/-- A plain value is made of no functions. -/
theorem Value.Plain.placed (h : value.Plain) : value.Placed U V f := by
  cases value <;> trivial

/-- Functions stay in order. -/
theorem Closure.Placed.later (h : fn.Placed U V f) (hlater : Later V f V' f') :
    fn.Placed U V' f' := by
  obtain ⟨ids, around, hmirrored, hcrossed, hfits⟩ := h
  exact ⟨ids, around, hmirrored.later_of_crossed hlater hcrossed, hcrossed, hfits⟩

theorem Closure.PlacedMethod.later (h : fn.PlacedMethod U V f) (hlater : Later V f V' f') :
    fn.PlacedMethod U V' f' := by
  obtain ⟨ids, around, hmirrored, hcrossed, hfits⟩ := h
  exact ⟨ids, around, hmirrored.later_of_crossed hlater hcrossed, hcrossed, hfits⟩

theorem Class.Placed.later (h : cls.Placed U V f) (hlater : Later V f V' f') :
    cls.Placed U V' f' :=
  fun body hbody name fn hfn => (h body hbody name fn hfn).later hlater

theorem Value.Placed.later (h : value.Placed U V f) (hlater : Later V f V' f') :
    value.Placed U V' f' := by
  cases value with
  | function serial fn => exact Closure.Placed.later h hlater
  | classRef cls => exact Class.Placed.later h hlater
  | instanceOf cls id => exact Class.Placed.later h hlater
  | _ => trivial

/-- A method that is found is in order, inherited or not. -/
theorem Class.Placed.findMethod? (h : cls.Placed U V f) {name : String}
    (hfind : cls.findMethod? name = some fn) : fn.PlacedMethod U V f := by
  obtain ⟨body, hbody, hfn⟩ := List.exists_of_findSome?_eq_some hfind
  exact h body hbody name fn hfn

end Placed

/-! ## Machines -/

/-- Everything a machine holds is in order: all values are placed, every frame binds
names of its vocabulary, and functions of the host return values without functions
of the program. -/
structure Machine.Sound (U : Use → Prop) (V : Vocabulary) (m : Machine) : Prop where
  root : ∃ frame, m.forest.frame? globals = some frame ∧ frame.outer = []
  values : ∀ id name value, m.forest.local? id name = some value → value.Placed U V m.forest
  fields : ∀ (i : Nat) (fields : Table Value), m.fields[i]? = some fields →
    ∀ name value, fields.find? name = some value → value.Placed U V m.forest
  names : ∀ id name, id ≠ globals → (m.forest.local? id name).isSome → name ∈ V id
  hosts : ∀ (i : Nat) (body : HostBody), m.hosts[i]? = some body →
    ∀ args value, body args = .ok value → ∀ V f, value.Placed U V f

namespace Machine.Sound

variable {U : Use → Prop} {m : Machine} {id : FrameId} {name : String} {value : Value}

/-- A value that is found is placed. -/
theorem lookup (h : m.Sound U V) (hlookup : m.forest.lookup id name = some value) :
    value.Placed U V m.forest := by
  obtain ⟨key, -, hlocal⟩ := List.exists_of_findSome?_eq_some hlookup
  exact h.values key name value hlocal

/-- The global frame is there. -/
theorem root_present (h : m.Sound U V) : ∃ frame, m.forest.frame? globals = some frame := by
  obtain ⟨frame, hframe, -⟩ := h.root
  exact ⟨frame, hframe⟩

/-- The global frame stands inside no other. -/
theorem mirrored_globals (h : m.Sound U V) : Nesting.Mirrored V m.forest globals [] [] := by
  obtain ⟨frame, hframe, houter⟩ := h.root
  refine ⟨⟨frame, hframe⟩, ?_, by simp, .nil⟩
  rw [Forest.chain_of_frame? hframe, houter, List.nil_append]

/-- A change that leaves forest, fields and functions of the host alone. -/
theorem congr {m' : Machine} (h : m.Sound U V) (hforest : m'.forest = m.forest)
    (hfields : m'.fields = m.fields) (hhosts : m'.hosts = m.hosts) : m'.Sound U V := by
  obtain ⟨hroot, hvalues, hfields', hnames, hhosts'⟩ := h
  constructor
  · rwa [hforest]
  · rwa [hforest]
  · rwa [hfields, hforest]
  · rwa [hforest]
  · rwa [hhosts]

/-- Binding a name. The value has to be placed when it has been bound. -/
theorem define (h : m.Sound U V) (hname : id ≠ globals → name ∈ V id)
    (hvalue : value.Placed U V (m.forest.define id name value)) :
    Machine.Sound U V { m with forest := m.forest.define id name value } := by
  have hlater := Later.define V m.forest id name value
  refine ⟨?_, fun key key' value' hlocal => ?_, fun i fields hi key value' hfind => ?_,
    fun key key' hkey hlocal => ?_, h.hosts⟩
  · obtain ⟨frame, hframe, houter⟩ := h.root
    obtain ⟨frame', hframe', hgrows⟩ := hlater.grows globals frame hframe
    exact ⟨frame', hframe', hgrows.outer.trans houter⟩
  · rcases Forest.local?_define_cases hlocal with ⟨-, -, rfl⟩ | hlocal
    · exact hvalue
    · exact (h.values key key' value' hlocal).later hlater
  · exact (h.fields i fields hi key value' hfind).later hlater
  · obtain ⟨value', hlocal⟩ := Option.isSome_iff_exists.mp hlocal
    rcases Forest.local?_define_cases hlocal with ⟨rfl, rfl, -⟩ | hlocal
    · exact hname hkey
    · exact h.names key key' hkey (Option.isSome_iff_exists.mpr ⟨value', hlocal⟩)

/-- A new frame binds nothing, and what will be bound in it may be chosen. -/
theorem newFrame (h : m.Sound U V) (parent : FrameId) (names : List String) :
    Machine.Sound U (V.extend m.forest.next names)
      { m with forest := m.forest.addChild parent } := by
  have hlater := Later.newFrame V m.forest parent names
  refine ⟨?_, fun key key' value' hlocal => ?_, fun i fields hi key value' hfind => ?_,
    fun key key' hkey hlocal => ?_, h.hosts⟩
  · obtain ⟨frame, hframe, houter⟩ := h.root
    exact ⟨frame, Forest.frame?_push_of_some hframe, houter⟩
  · rw [Forest.local?_addChild] at hlocal
    exact (h.values key key' value' hlocal).later hlater
  · exact (h.fields i fields hi key value' hfind).later hlater
  · rw [Forest.local?_addChild] at hlocal
    obtain ⟨frame, hframe⟩ := Forest.isSome_frame?_of_local? hlocal
    rw [hlater.same key frame hframe]
    exact h.names key key' hkey hlocal

end Machine.Sound

/-! ## Looking up -/

/-- In frames that mirror the scopes around a variable, the name is found in the
frame of the scope it belongs to. If it belongs to none, it is found in the global
frame or not at all. -/
theorem Nesting.Mirrored.owner? {id : FrameId} {ids : List FrameId} {u : Use}
    (h : u.scopes.Mirrored V f id ids) (hsettled : u.Settled)
    (hnames : ∀ key ∈ ids, ∀ name, (f.local? key name).isSome → name ∈ V key) :
    match u.distance? with
    | some d => ∃ key, ids[d]? = some key ∧ f.owner? id u.name.lexeme = some key
    | none => f.owner? id u.name.lexeme =
        [Machine.globals].find? fun key => (f.local? key u.name.lexeme).isSome := by
  have hids : match u.scopes.findIdx? fun scope => u.DeclaredIn scope with
      | some d => ∃ key, ids[d]? = some key ∧
          ids.find? (fun key => (f.local? key u.name.lexeme).isSome) = some key
      | none => ids.find? (fun key => (f.local? key u.name.lexeme).isSome) = none := by
    have hscopes := h.scopes
    unfold Use.Settled at hsettled
    generalize u.scopes = around at hscopes hsettled
    clear h
    induction hscopes with
    | nil => rfl
    | @cons key scope ids around hscope _ ih =>
      rw [List.findIdx?_cons]
      by_cases hdeclared : u.DeclaredIn scope
      · rw [if_pos (decide_eq_true hdeclared)]
        exact ⟨key, rfl, List.find?_cons_of_pos (hscope.bound _ hdeclared)⟩
      · have htake : (scope :: around).takeWhile (fun scope => ¬ u.DeclaredIn scope)
            = scope :: around.takeWhile fun scope => ¬ u.DeclaredIn scope :=
          List.takeWhile_cons_of_pos (decide_eq_true hdeclared)
        rw [htake] at hsettled
        -- the frame cannot bind the name: not now, and not because of what is declared behind
        have hunbound : ¬ (f.local? key u.name.lexeme).isSome := by
          intro hbound
          cases hcrossed : scope.crossed with
          | false => exact hdeclared (hscope.exact hcrossed _ hbound)
          | true =>
            have hroom := hscope.room hcrossed _ (hnames key List.mem_cons_self _ hbound)
            exact hroom.elim hdeclared (hsettled scope List.mem_cons_self hcrossed)
        have hskip : (key :: ids).find? (fun key => (f.local? key u.name.lexeme).isSome)
            = ids.find? fun key => (f.local? key u.name.lexeme).isSome :=
          List.find?_cons_of_neg hunbound
        have htail := ih (fun key hkey => hnames key (List.mem_cons_of_mem _ hkey))
          fun scope' hscope' => hsettled scope' (List.mem_cons_of_mem _ hscope')
        rw [if_neg (ne_true_of_eq_false (decide_eq_false hdeclared)), hskip]
        cases hfind : around.findIdx? fun scope => u.DeclaredIn scope with
        | none =>
          rw [hfind] at htail
          exact htail
        | some d =>
          rw [hfind] at htail
          obtain ⟨found, hget, hfound⟩ := htail
          exact ⟨found, by rw [List.getElem?_cons_succ]; exact hget, hfound⟩
  have howner : f.owner? id u.name.lexeme =
      (ids.find? fun key => (f.local? key u.name.lexeme).isSome).or
        ([Machine.globals].find? fun key => (f.local? key u.name.lexeme).isSome) := by
    rw [Forest.owner?, h.chain, List.find?_append]
  unfold Use.distance?
  cases hfind : u.scopes.findIdx? fun scope => u.DeclaredIn scope with
  | none =>
    rw [hfind] at hids
    rw [howner, hids, Option.none_or]
  | some d =>
    rw [hfind] at hids
    obtain ⟨key, hget, hfound⟩ := hids
    exact ⟨key, hget, by rw [howner, hfound, Option.some_or]⟩

end Lox
