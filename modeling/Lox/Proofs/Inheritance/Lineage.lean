/-
`Lox.Proofs.Inheritance.Lineage` -- classes and those they inherit from.

A class carries its ancestors with it as a list. Here the list is read as it is walked:
from a class one goes to the class that it inherits from (`Class.parent?`), and a method is
looked for in one class after the other. The search is written out with a bound on its steps
(`Class.search?`), so that it can be said that it ends, and after how many.

What the list cannot say is that no class stands twice in it, which is a matter of identity.
For this there are the serial numbers. A class descends below a number if the serial numbers
fall from that number on, from each class to the one that it inherits from
(`Class.Descends`). Then all its ancestors are different classes, and there are no more of
them than the number says.
-/
import Lox.Machine.Evaluate
import Mathlib.Data.List.Basic
import Mathlib.Data.List.Induction

set_option autoImplicit false

namespace Lox

/-! ## From class to class -/

namespace Class

variable {cls cls' parent : Class} {name : String} {n n' : Nat}

/-- The class with these declarations, nearest first. -/
def ofLineage? : List ClassBody → Option Class
  | [] => none
  | own :: rest => some ⟨own, rest⟩

/-- The class that a class inherits from. -/
def parent? (cls : Class) : Option Class :=
  ofLineage? cls.ancestors

/-- The class that is so many steps away. -/
def ancestor? (cls : Class) : Nat → Option Class
  | 0 => some cls
  | steps + 1 => (cls.ancestor? steps).bind parent?

/-- The search for a method, from a class to the one that it inherits from. It has a result
only if that many steps are enough. -/
def search? : Nat → Class → String → Option (Option Closure)
  | 0, _, _ => none
  | steps + 1, cls, name =>
    match cls.own.methods.find? name with
    | some method => some (some method)
    | none =>
      match cls.parent? with
      | some parent => parent.search? steps name
      | none => some none

/-- A class is told by its lineage. -/
theorem ofLineage?_eq_some {lineage : List ClassBody} :
    ofLineage? lineage = some cls ↔ lineage = cls.lineage := by
  obtain ⟨own, rest⟩ := cls
  cases lineage with
  | nil => simp [ofLineage?, lineage]
  | cons own' rest' => simp [ofLineage?, lineage]

/-- The superclass begins where the lineage goes on. -/
theorem parent?_eq_some : cls.parent? = some parent ↔ cls.ancestors = parent.lineage :=
  ofLineage?_eq_some

/-- A class that is put together from its own declaration and another class inherits from
that. -/
theorem parent?_mk (own : ClassBody) (parent : Option Class) :
    parent? ⟨own, parent.elim [] lineage⟩ = parent := by
  cases parent <;> rfl

/-- So many steps away is so many entries further on. -/
theorem ancestor?_eq (cls : Class) (steps : Nat) :
    cls.ancestor? steps = ofLineage? (cls.lineage.drop steps) := by
  induction steps with
  | zero => rfl
  | succ steps ih =>
    rw [ancestor?, ih, ← List.drop_drop, List.drop_one]
    cases cls.lineage.drop steps <;> rfl

/-- From every class one comes to one that inherits from none. -/
theorem ancestor?_length (cls : Class) : cls.ancestor? cls.lineage.length = none := by
  rw [ancestor?_eq, List.drop_length]
  rfl

/-! ## Finding methods -/

/-- A method is one of the class itself, or else what is found in the class that it
inherits from. -/
theorem findMethod?_eq (cls : Class) (name : String) :
    cls.findMethod? name
      = (cls.own.methods.find? name).or (cls.parent?.bind fun parent => parent.findMethod? name) := by
  obtain ⟨own, ancestors⟩ := cls
  have hown : findMethod? ⟨own, ancestors⟩ name
      = (own.methods.find? name).or (ancestors.findSome? fun body => body.methods.find? name) := by
    rw [findMethod?, lineage, List.findSome?_cons]
    cases own.methods.find? name <;> rfl
  rw [hown]
  cases ancestors <;> rfl

/-- The search ends after as many steps as there are classes on the way, with the method. -/
theorem search?_eq {steps : Nat} (h : cls.lineage.length ≤ steps) (name : String) :
    search? steps cls name = some (cls.findMethod? name) := by
  induction steps generalizing cls with
  | zero => exact absurd h (Nat.not_succ_le_zero _)
  | succ steps ih =>
    rw [search?, findMethod?_eq]
    cases cls.own.methods.find? name with
    | some method => rfl
    | none =>
      cases hparent : cls.parent? with
      | none => rfl
      | some parent =>
        have hlength : parent.lineage.length ≤ steps := by
          rw [lineage, List.length_cons, parent?_eq_some.mp hparent] at h
          exact Nat.le_of_succ_le_succ h
        exact ih hlength

/-! ## Falling numbers -/

/-- From the number on the serial numbers fall, from each class to the one that it inherits
from. -/
def Descends (cls : Class) (n : Nat) : Prop :=
  (n :: cls.lineage.map ClassBody.serial).Pairwise (· > ·)

/-- Descending below a number is descending below each larger one. -/
theorem Descends.mono (h : cls.Descends n) (hn : n ≤ n') : cls.Descends n' := by
  obtain ⟨hbelow, hrest⟩ := List.pairwise_cons.mp h
  exact List.pairwise_cons.mpr ⟨fun serial hserial =>
    Nat.lt_of_lt_of_le (hbelow serial hserial) hn, hrest⟩

/-- What a class inherits from descends below the same number. -/
theorem Descends.of_suffix (h : cls.Descends n) (hsuffix : cls'.lineage <:+ cls.lineage) :
    cls'.Descends n :=
  h.sublist (List.Sublist.cons_cons n (hsuffix.sublist.map _))

/-- A class with the next number that inherits from one with lower ones. -/
theorem descends_mk {own : ClassBody} {parent : Option Class} (hown : own.serial = n)
    (h : ∀ cls ∈ parent, cls.Descends n) :
    Descends ⟨own, parent.elim [] lineage⟩ (n + 1) := by
  subst hown
  have hfall : (own.serial :: (parent.elim [] lineage).map ClassBody.serial).Pairwise (· > ·) := by
    cases parent with
    | none => exact List.pairwise_singleton _ _
    | some parent => exact h parent rfl
  refine List.pairwise_cons.mpr ⟨fun serial hserial => ?_, hfall⟩
  rcases List.mem_cons.mp hserial with rfl | hserial
  · exact Nat.lt_succ_self _
  · exact Nat.lt_succ_of_lt (List.rel_of_pairwise_cons hfall hserial)

/-- The number of the class itself is smaller. -/
theorem Descends.serial_lt (h : cls.Descends n) : cls.own.serial < n :=
  List.rel_of_pairwise_cons h List.mem_cons_self

/-- There are no more numbers to fall through than those below the first one. -/
private theorem length_le_of_pairwise {serials : List Nat}
    (h : (n :: serials).Pairwise (· > ·)) : serials.length ≤ n := by
  induction serials generalizing n with
  | nil => exact Nat.zero_le n
  | cons serial rest ih =>
    obtain ⟨hbelow, hrest⟩ := List.pairwise_cons.mp h
    exact Nat.lt_of_le_of_lt (ih hrest) (hbelow serial List.mem_cons_self)

/-- As the numbers fall, there are no more classes than numbers. -/
theorem Descends.length_le (h : cls.Descends n) : cls.lineage.length ≤ n := by
  simpa using length_le_of_pairwise h

/-- The classes on the way descend too. -/
theorem Descends.ancestor? {i : Nat} {ancestor : Class} (h : cls.Descends n)
    (hancestor : cls.ancestor? i = some ancestor) : ancestor.Descends n := by
  rw [ancestor?_eq, ofLineage?_eq_some] at hancestor
  exact h.of_suffix (hancestor ▸ List.drop_suffix i _)

/-- Further away there are only classes with lower numbers. -/
theorem Descends.ancestor?_lt {i j : Nat} {nearer further : Class} (h : cls.Descends n)
    (hij : i < j) (hnearer : cls.ancestor? i = some nearer)
    (hfurther : cls.ancestor? j = some further) : further.own.serial < nearer.own.serial := by
  obtain ⟨-, hfall⟩ := List.pairwise_cons.mp (h.ancestor? hnearer)
  rw [ancestor?_eq, ofLineage?_eq_some] at hnearer hfurther
  obtain ⟨k, rfl⟩ := Nat.exists_eq_add_of_lt hij
  -- what is further away is a part of the list behind the nearer class
  rw [Nat.add_assoc, ← List.drop_drop, hnearer] at hfurther
  have hlater : nearer.ancestors.drop k = further.lineage := hfurther
  have hmem : further.own ∈ nearer.ancestors.drop k := hlater ▸ List.mem_cons_self
  exact List.rel_of_pairwise_cons hfall (List.mem_map_of_mem (List.mem_of_mem_drop hmem))

/-- What the class inherits from comes to an end after no more than `n` steps. On the way no
class is met twice, all have numbers below `n`, and the search for a method ends with the one
that is found. -/
structure Grounded (cls : Class) (n : Nat) : Prop where
  ends : ∃ steps ≤ n, cls.ancestor? steps = none
  distinct : ∀ i j nearer further, i < j → cls.ancestor? i = some nearer →
    cls.ancestor? j = some further → (Value.classRef nearer).equals (.classRef further) = false
  older : ∀ i ancestor, cls.ancestor? i = some ancestor → ancestor.own.serial < n
  found : ∀ name, search? n cls name = some (cls.findMethod? name)

/-- So the walk ends, meets nothing twice, and finds methods as the search does. -/
theorem Descends.grounded (h : cls.Descends n) : cls.Grounded n where
  ends := ⟨cls.lineage.length, h.length_le, cls.ancestor?_length⟩
  distinct _ _ _ _ hij hnearer hfurther :=
    beq_false_of_ne (Nat.ne_of_gt (h.ancestor?_lt hij hnearer hfurther))
  older _ _ hancestor := (h.ancestor? hancestor).serial_lt
  found := search?_eq h.length_le

end Class

/-! ## The methods of a declaration -/

/-- The last one of a name. -/
def FunctionDecl.last? (methods : List FunctionDecl) (name : String) : Option FunctionDecl :=
  methods.reverse.find? fun method => method.name.lexeme == name

namespace Machine

/-- In the table of a class is the last method of each name, closed over one frame; the
one called `init` is the initializer. -/
theorem methodTable_find?_eq (frame : FrameId) (methods : List FunctionDecl) (name : String) :
    (methodTable frame methods).find? name
      = (FunctionDecl.last? methods name).map fun method => ⟨method, frame, name == "init"⟩ := by
  rw [FunctionDecl.last?, methodTable]
  induction methods using List.reverseRecOn with
  | nil => rfl
  | append_singleton before method ih =>
    rw [List.foldl_append, List.reverse_append, List.reverse_singleton, List.singleton_append,
      List.find?_cons, List.foldl_cons, List.foldl_nil, Table.find?_insert]
    by_cases hname : name = method.name.lexeme
    · simp [hname]
    · have hother : (method.name.lexeme == name) = false := beq_false_of_ne (Ne.symm hname)
      rw [if_neg hname, hother, ih]

end Machine

end Lox
