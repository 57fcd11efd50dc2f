/-
`Lox.Proofs.Loop.Value` -- values that refer to frames of two forests.

Functions and classes are closed over frames. Two values match if they are the same but
for those frames, and each frame of the first stands for the one of the second. Nothing
that a program or its output can tell about a value depends on the frames: they come into
play only when a function is called. And what matches goes on doing so when the forests
have grown.
-/
import Lox.Proofs.Loop.Images
import Lox.Proofs.Machine.Run

set_option autoImplicit false

namespace Lox

section Matches

variable (w : Images)

/-- The functions have one declaration, and frames of which one stands for the other. -/
structure Closure.Matches (fn fn' : Closure) : Prop where
  decl : fn.decl = fn'.decl
  frame : w.StandsFor fn.frame fn'.frame
  isInitializer : fn.isInitializer = fn'.isInitializer

structure ClassBody.Matches (body body' : ClassBody) : Prop where
  serial : body.serial = body'.serial
  name : body.name = body'.name
  methods : Table.Alike (Closure.Matches w) body.methods body'.methods

structure Class.Matches (cls cls' : Class) : Prop where
  own : cls.own.Matches w cls'.own
  ancestors : List.Forall₂ (ClassBody.Matches w) cls.ancestors cls'.ancestors

/-- The values are the same but for the frames that they refer to. -/
inductive Value.Matches : Value → Value → Prop where
  | plain {value : Value} : value.Plain → Matches value value
  | function {serial : Nat} {fn fn' : Closure} :
    fn.Matches w fn' → Matches (.function serial fn) (.function serial fn')
  | classRef {cls cls' : Class} : cls.Matches w cls' → Matches (.classRef cls) (.classRef cls')
  | instanceOf {cls cls' : Class} {id : InstanceId} :
    cls.Matches w cls' → Matches (.instanceOf cls id) (.instanceOf cls' id)

/-- What is called matches. -/
inductive Machine.Callee.Matches : Callee → Callee → Prop where
  | function {fn fn' : Closure} : fn.Matches w fn' → Matches (.function fn) (.function fn')
  | host (fn : HostFunction) : Matches (.host fn) (.host fn)
  | classRef {cls cls' : Class} : cls.Matches w cls' → Matches (.classRef cls) (.classRef cls')

end Matches

/-! ## Later on -/

section Later

variable {w w' : Images} (hw : w <+: w')
include hw

/-- Functions go on to match when frames are made. -/
theorem Closure.Matches.later {fn fn' : Closure} (h : fn.Matches w fn') : fn.Matches w' fn' :=
  { h with frame := h.frame.later hw }

theorem ClassBody.Matches.later {body body' : ClassBody} (h : body.Matches w body') :
    body.Matches w' body' :=
  { h with methods := h.methods.imp fun _ _ hentry => ⟨hentry.1, hentry.2.later hw⟩ }

theorem Class.Matches.later {cls cls' : Class} (h : cls.Matches w cls') : cls.Matches w' cls' :=
  ⟨h.own.later hw, h.ancestors.imp fun _ _ hbody => hbody.later hw⟩

theorem Value.Matches.later {value value' : Value} (h : value.Matches w value') :
    value.Matches w' value' := by
  cases h with
  | plain hplain => exact .plain hplain
  | function hfn => exact .function (hfn.later hw)
  | classRef hcls => exact .classRef (hcls.later hw)
  | instanceOf hcls => exact .instanceOf (hcls.later hw)

theorem Value.Matches.later_each {values values' : List Value}
    (h : List.Forall₂ (Value.Matches w) values values') :
    List.Forall₂ (Value.Matches w') values values' :=
  h.imp fun _ _ hvalue => hvalue.later hw

end Later

variable {w : Images}

theorem Value.Matches.nil : Value.Matches w .nil .nil :=
  .plain trivial

theorem Constant.toValue_matches (value : Constant) :
    Value.Matches w value.toValue value.toValue := by
  cases value <;> exact .plain trivial

/-! ## What can be seen of a value -/

namespace Class.Matches

variable {cls cls' : Class}

/-- Classes match body by body. -/
theorem lineage (h : cls.Matches w cls') :
    List.Forall₂ (ClassBody.Matches w) cls.lineage cls'.lineage :=
  .cons h.own h.ancestors

/-- A method is found in both, or in neither. -/
theorem findMethod? (h : cls.Matches w cls') (name : String) :
    Option.Rel (Closure.Matches w) (cls.findMethod? name) (cls'.findMethod? name) :=
  findSome?_rel (fun _ _ hbody => hbody.methods.find? name) h.lineage

end Class.Matches

/-- Matching functions take equally many arguments. -/
theorem Closure.Matches.arity {fn fn' : Closure} (h : fn.Matches w fn') : fn.arity = fn'.arity := by
  rw [Closure.arity, Closure.arity, h.decl]

theorem Class.Matches.arity {cls cls' : Class} (h : cls.Matches w cls') :
    cls.arity = cls'.arity := by
  have hinit := h.findMethod? "init"
  unfold Class.arity
  generalize cls.findMethod? "init" = found at hinit
  generalize cls'.findMethod? "init" = found' at hinit
  cases hinit with
  | none => rfl
  | some hfn => exact hfn.arity

section Values

variable {value value' other other' : Value}

/-- Matching values count as true both or neither. -/
theorem Value.Matches.isTruthy (h : value.Matches w value') :
    value.isTruthy = value'.isTruthy := by
  cases h <;> rfl

/-- Functions, classes and instances are equal by their numbers, and not by their frames. -/
theorem Value.Matches.equals (h : value.Matches w value') (h' : other.Matches w other') :
    value.equals other = value'.equals other' := by
  cases h with
  | @plain value hvalue =>
    cases h' with
    | plain _ => rfl
    | _ => cases value <;> first | rfl | exact hvalue.elim
  | @classRef cls cls' hcls =>
    cases h' with
    | @plain other hother => cases other <;> first | rfl | exact hother.elim
    | @classRef other other' hother =>
      show (cls.own.serial == other.own.serial) = (cls'.own.serial == other'.own.serial)
      rw [hcls.own.serial, hother.own.serial]
    | _ => rfl
  | _ =>
    cases h' with
    | @plain other _ => cases other <;> rfl
    | _ => rfl

/-- They are shown in the same text, which says nothing of frames. -/
theorem Value.Matches.display (h : value.Matches w value') : value.display = value'.display := by
  cases h with
  | plain _ => rfl
  | @function _ fn fn' hfn =>
    show "<fn " ++ fn.decl.name.lexeme ++ ">" = "<fn " ++ fn'.decl.name.lexeme ++ ">"
    rw [hfn.decl]
  | classRef hcls => exact hcls.own.name
  | @instanceOf cls cls' _ hcls =>
    show cls.own.name ++ " instance" = cls'.own.name ++ " instance"
    rw [hcls.own.name]

namespace Machine.Callee

/-- They can be called both or neither. -/
theorem ofValue?_matches (h : value.Matches w value') :
    Option.Rel (Matches w) (ofValue? value) (ofValue? value') := by
  cases h with
  | @plain value hvalue =>
    cases value with
    | host fn => exact .some (.host fn)
    | function _ _ | classRef _ | instanceOf _ _ => exact hvalue.elim
    | _ => exact .none
  | function hfn => exact .some (.function hfn)
  | classRef hcls => exact .some (.classRef hcls)
  | instanceOf _ => exact .none

/-- Matching callees take equally many arguments. -/
theorem Matches.arity {callee callee' : Callee} (h : callee.Matches w callee') :
    callee.arity = callee'.arity := by
  cases h with
  | function hfn => exact Closure.Matches.arity hfn
  | host _ => rfl
  | classRef hcls => exact Class.Matches.arity hcls

end Machine.Callee

end Values

end Lox
