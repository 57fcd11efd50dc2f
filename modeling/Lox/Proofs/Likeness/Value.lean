/-
`Lox.Proofs.Likeness.Value` -- values that hold alike trees.

Functions and classes hold pieces of the program that made them. Values of two programs
are alike if they are the same but for that, and the pieces are alike. What can be seen of
a value from within a program depends on no more than this: whether a condition holds, how
a value is printed, which values are equal, what can be called and with how many
arguments, and which method a name stands for.
-/
import Lox.Proofs.Likeness.Store
import Lox.Proofs.Likeness.Tree
import Lox.Proofs.Machine.Run

set_option autoImplicit false

namespace Lox

section Alike

-- which tokens are counterparts in a role
variable (P : Role → Token → Token → Prop)

/-! ## Functions and classes -/

/-- The functions have alike declarations, and are closed over the same frame. -/
structure Closure.Alike (fn fn' : Closure) : Prop where
  decl : fn.decl.Alike P fn'.decl
  frame : fn.frame = fn'.frame
  isInitializer : fn.isInitializer = fn'.isInitializer

/-- What the class declarations contribute has one identity and one name, and the methods
are alike. -/
structure ClassBody.Alike (body body' : ClassBody) : Prop where
  serial : body.serial = body'.serial
  name : body.name = body'.name
  methods : Table.Alike (Closure.Alike P) body.methods body'.methods

structure Class.Alike (cls cls' : Class) : Prop where
  own : cls.own.Alike P cls'.own
  ancestors : List.Forall₂ (ClassBody.Alike P) cls.ancestors cls'.ancestors

/-! ## Values -/

/-- The values are the same but for the trees that they hold, and these are alike. -/
inductive Value.Alike : Value → Value → Prop
  | plain {value : Value} : value.Plain → Alike value value
  | function {serial : Nat} {fn fn' : Closure} :
    fn.Alike P fn' → Alike (.function serial fn) (.function serial fn')
  | classRef {cls cls' : Class} : cls.Alike P cls' → Alike (.classRef cls) (.classRef cls')
  | instanceOf {cls cls' : Class} {id : InstanceId} :
    cls.Alike P cls' → Alike (.instanceOf cls id) (.instanceOf cls' id)

/-- What is called is alike. -/
inductive Machine.Callee.Alike : Callee → Callee → Prop
  | function {fn fn' : Closure} : fn.Alike P fn' → Alike (.function fn) (.function fn')
  | host (fn : HostFunction) : Alike (.host fn) (.host fn)
  | classRef {cls cls' : Class} : cls.Alike P cls' → Alike (.classRef cls) (.classRef cls')

end Alike

variable {P : Role → Token → Token → Prop}

theorem Value.Alike.nil : Value.Alike P .nil .nil :=
  .plain trivial

theorem Constant.toValue_alike (value : Constant) : Value.Alike P value.toValue value.toValue := by
  cases value <;> exact .plain trivial

/-! ## What can be seen of a class -/

namespace Class.Alike

variable {cls cls' : Class}

/-- Classes that are alike inherit from classes that are. -/
theorem lineage (h : cls.Alike P cls') :
    List.Forall₂ (ClassBody.Alike P) cls.lineage cls'.lineage :=
  .cons h.own h.ancestors

/-- A method is found in both, or in neither. -/
theorem findMethod? (h : cls.Alike P cls') (name : String) :
    Option.Rel (Closure.Alike P) (cls.findMethod? name) (cls'.findMethod? name) :=
  findSome?_rel (fun _ _ hbody => hbody.methods.find? name) h.lineage

end Class.Alike

/-- Functions that are alike take equally many arguments. -/
theorem Closure.Alike.arity {fn fn' : Closure} (h : fn.Alike P fn') : fn.arity = fn'.arity :=
  h.decl.params.length_eq

theorem Class.Alike.arity {cls cls' : Class} (h : cls.Alike P cls') : cls.arity = cls'.arity := by
  have hinit := h.findMethod? "init"
  unfold Class.arity
  generalize cls.findMethod? "init" = found at hinit
  generalize cls'.findMethod? "init" = found' at hinit
  cases hinit with
  | none => rfl
  | some hfn => exact hfn.arity

/-! ## What can be seen of a value -/

section Values

variable {value value' other other' : Value}

/-- Values that are alike count as true both or neither. -/
theorem Value.Alike.isTruthy (h : value.Alike P value') : value.isTruthy = value'.isTruthy := by
  cases h <;> rfl

/-- Equal values are told by their identity, and plain ones hold no tree. -/
theorem Value.Alike.equals (h : value.Alike P value') (h' : other.Alike P other') :
    value.equals other = value'.equals other' := by
  cases h with
  -- a plain value equals none of another sort, whatever tree that holds
  | @plain value hvalue =>
    cases h' with
    | plain _ => rfl
    | _ => cases value <;> first | rfl | exact hvalue.elim
  | @classRef cls cls' hcls =>
    cases h' with
    | @plain other hother => cases other <;> first | rfl | exact hother.elim
    | @classRef other other' hother =>
      show (cls.own.serial == other.own.serial) = (cls'.own.serial == other'.own.serial)
      rw [hcls.own.serial, hother.own.serial]
    | _ => rfl
  | _ =>
    cases h' with
    | @plain other _ => cases other <;> rfl
    | _ => rfl

/-- They are shown in the same text, as only lexemes and literals are. -/
theorem Value.Alike.display (hP : ∀ role t t', P role t t' → t.SameWord t')
    (h : value.Alike P value') : value.display = value'.display := by
  cases h with
  | plain _ => rfl
  | @function _ fn fn' hfn =>
    show "<fn " ++ fn.decl.name.lexeme ++ ">" = "<fn " ++ fn'.decl.name.lexeme ++ ">"
    rw [(hP _ _ _ hfn.decl.name).lexeme]
  | classRef hcls => exact hcls.own.name
  | @instanceOf cls cls' _ hcls =>
    show cls.own.name ++ " instance" = cls'.own.name ++ " instance"
    rw [hcls.own.name]

namespace Machine.Callee

/-- They can be called both or neither. -/
theorem ofValue?_alike (h : value.Alike P value') :
    Option.Rel (Alike P) (ofValue? value) (ofValue? value') := by
  cases h with
  | @plain value hvalue =>
    cases value with
    | host fn => exact .some (.host fn)
    | function _ _ | classRef _ | instanceOf _ _ => exact hvalue.elim
    | _ => exact .none
  | function hfn => exact .some (.function hfn)
  | classRef hcls => exact .some (.classRef hcls)
  | instanceOf _ => exact .none

/-- Callees that are alike take equally many arguments. -/
theorem Alike.arity {callee callee' : Callee} (h : callee.Alike P callee') :
    callee.arity = callee'.arity := by
  cases h with
  | function hfn => exact Closure.Alike.arity hfn
  | host _ => rfl
  | classRef hcls => exact Class.Alike.arity hcls

end Machine.Callee

end Values

/-! ## Values that are like no others -/

section Equal

variable (hP : ∀ role t t', P role t t' → t = t')
include hP

/-- If tokens are counterparts of themselves only, a function is like no other. -/
theorem Closure.Alike.eq {fn fn' : Closure} (h : fn.Alike P fn') : fn = fn' := by
  obtain ⟨decl, frame, isInitializer⟩ := fn
  obtain ⟨decl', frame', isInitializer'⟩ := fn'
  obtain ⟨hdecl, rfl, rfl⟩ := h
  replace hdecl : decl = decl' := hdecl.eq hP
  rw [hdecl]

theorem ClassBody.Alike.eq {body body' : ClassBody} (h : body.Alike P body') : body = body' := by
  obtain ⟨serial, name, ⟨methods⟩⟩ := body
  obtain ⟨serial', name', ⟨methods'⟩⟩ := body'
  obtain ⟨rfl, rfl, hmethods⟩ := h
  have heq : methods = methods' := by
    refine eq_of_forall₂ ?_ hmethods
    rintro ⟨key, fn⟩ ⟨key', fn'⟩ ⟨hkey, hfn⟩
    exact Prod.ext hkey (Closure.Alike.eq hP hfn)
  rw [heq]

theorem Class.Alike.eq {cls cls' : Class} (h : cls.Alike P cls') : cls = cls' := by
  obtain ⟨own, ancestors⟩ := cls
  obtain ⟨own', ancestors'⟩ := cls'
  obtain ⟨hown, hancestors⟩ := h
  replace hown : own = own' := ClassBody.Alike.eq hP hown
  replace hancestors : ancestors = ancestors' :=
    eq_of_forall₂ (fun _ _ => ClassBody.Alike.eq hP) hancestors
  rw [hown, hancestors]

/-- Where a token has no counterpart but itself, a value is like no other one. -/
theorem Value.Alike.eq {value value' : Value} (h : value.Alike P value') : value = value' := by
  cases h with
  | plain _ => rfl
  | function hfn => rw [Closure.Alike.eq hP hfn]
  | classRef hcls => rw [Class.Alike.eq hP hcls]
  | instanceOf hcls => rw [Class.Alike.eq hP hcls]

end Equal

end Lox
