/-
`Lox.Proofs.Inheritance.Declaration` -- declarations of classes, as a whole.

The declaration of a class binds its name to nil first, so that the methods are closed over
a frame with that name, and assigns the class to the name in the end. In between nothing can
fail: the superclass has been looked up before, and the assignment goes to the binding that
was just made, whatever is bound to that name further out. So a declaration either fails and
has left the machine as it was (`ClassOutcome.undefined`, `ClassOutcome.noClass`), or it has
bound the one name in the current frame (`Declared`). Of the first binding nothing is left.
-/
import Lox.Proofs.Inheritance.Lineage
import Lox.Proofs.Method.Step

set_option autoImplicit false

namespace Lox

/-- The frame with a value for a name. -/
def Frame.bind {α : Type} (frame : Frame α) (name : String) (value : α) : Frame α :=
  { frame with bindings := frame.bindings.insert name value }

namespace Machine

variable {m m' : Machine} {decl : ClassDecl} {parent : Option Class} {cls : Class} {id : FrameId}

/-! ## What a declaration does -/

/-- The class that a declaration inherits from, if it names one as a variable: the one that
the name stands for in the current frame. -/
inductive FindsParent (m : Machine) (decl : ClassDecl) : Option Class → Prop
  | none : decl.superclass = none → FindsParent m decl none
  | some {name : Token} {parent : Class} : decl.superclass = some (.variable name) →
    m.forest.lookup m.current name.lexeme = some (.classRef parent) →
    FindsParent m decl (some parent)

/-- The frame that the methods are closed over: the current one, or a new one for `super`. -/
def methodScope (m : Machine) (parent : Option Class) : FrameId :=
  if parent.isSome then m.forest.next else m.current

/-- What there is after a declaration: the class, bound to its name in the current frame, and
everything else as it was before. -/
structure Declared (m : Machine) (decl : ClassDecl) (parent : Option Class) (cls : Class)
    (m' : Machine) : Prop where
  here : m'.forest.frame? m.current
    = (m.forest.frame? m.current).map fun frame => frame.bind decl.name.lexeme (.classRef cls)
  elsewhere : ∀ id, m.forest.Present id → id ≠ m.current →
    m'.forest.frame? id = m.forest.frame? id
  /-- The only frame that may have been created is one for the superclass. -/
  frames : ∀ id, m'.forest.Present id ↔
    m.forest.Present id ∨ parent.isSome ∧ id = m.forest.next
  superFrame : ∀ found ∈ parent, m'.forest.frame? m.forest.next
    = some ⟨Table.empty.insert "super" (.classRef found), m.forest.chain m.current⟩
  fields : m'.fields = m.fields
  hosts : m'.hosts = m.hosts
  sink : m'.sink = m.sink
  current : m'.current = m.current
  /-- The class is a new one. -/
  serial : cls.own.serial = m.nextSerial ∧ m'.nextSerial = m.nextSerial + 1
  named : cls.name = decl.name.lexeme
  inherits : cls.parent? = parent
  methods : ∀ name, cls.findMethod? name =
    match FunctionDecl.last? decl.methods name with
    | some method => some ⟨method, m.methodScope parent, name == "init"⟩
    | none => parent.bind fun parent => parent.findMethod? name

/-- The ways in which the execution of a declaration ends. -/
inductive ClassOutcome (m : Machine) (decl : ClassDecl) :
    EStateM.Result Halt Machine Completion → Prop
  /-- Nothing has the name of the superclass. -/
  | undefined {name : Token} : decl.superclass = some (.variable name) →
    m.forest.lookup m.current name.lexeme = none →
    ClassOutcome m decl (.error (.failed (.undefinedVariable name)) m)
  /-- What has the name of the superclass is no class. -/
  | noClass {name : Token} {value : Value} : decl.superclass = some (.variable name) →
    m.forest.lookup m.current name.lexeme = some value → (∀ cls, value ≠ .classRef cls) →
    ClassOutcome m decl (.error (.failed (.superclassNotClass name)) m)
  | declared {parent : Option Class} {cls : Class} {m' : Machine} : FindsParent m decl parent →
    Declared m decl parent cls m' → ClassOutcome m decl (.ok .normal m')

/-! ## What there is afterwards -/

/-- The forest after a declaration. -/
def forestWith (m : Machine) (decl : ClassDecl) (parent : Option Class) (cls : Class) :
    Forest Value :=
  (methodFrame (m.forest.define m.current decl.name.lexeme .nil) m.current parent).1.define
    m.current decl.name.lexeme (.classRef cls)

/-- In the current frame the name of the class is bound, and nothing else has changed. -/
theorem frame?_forestWith_current (hcurrent : m.forest.Present m.current) :
    (m.forestWith decl parent cls).frame? m.current
      = (m.forest.frame? m.current).map fun frame => frame.bind decl.name.lexeme (.classRef cls) := by
  -- the frame for the superclass is a new one, so the current one is left alone by it
  have hmade : (methodFrame (m.forest.define m.current decl.name.lexeme .nil) m.current
      parent).1.frame? m.current
        = (m.forest.define m.current decl.name.lexeme .nil).frame? m.current := by
    cases parent with
    | none => rfl
    | some parent => exact Forest.frame?_addWith_of_ne (Forest.present_define.mpr hcurrent).ne_next
  obtain ⟨frame, hframe⟩ := hcurrent
  rw [forestWith, Forest.frame?_define, if_pos rfl, hmade, Forest.frame?_define, if_pos rfl, hframe]
  simp only [Option.map_some, Frame.bind, Table.insert_insert]

/-- The other frames are as they were. -/
theorem frame?_forestWith_of_ne (hid : m.forest.Present id) (hne : id ≠ m.current) :
    (m.forestWith decl parent cls).frame? id = m.forest.frame? id := by
  rw [forestWith, Forest.frame?_define, if_neg (Ne.symm hne)]
  cases parent with
  | none => rw [methodFrame, Forest.frame?_define, if_neg (Ne.symm hne)]
  | some parent =>
    rw [methodFrame, Forest.frame?_addWith_of_ne (Forest.present_define.mpr hid).ne_next,
      Forest.frame?_define, if_neg (Ne.symm hne)]

/-- There is one frame more if there is a superclass, and none otherwise. -/
theorem present_forestWith :
    (m.forestWith decl parent cls).Present id ↔
      m.forest.Present id ∨ parent.isSome ∧ id = m.forest.next := by
  rw [forestWith, Forest.present_define]
  cases parent with
  | none => simp [methodFrame, Forest.present_define]
  | some parent =>
    simp [methodFrame, Forest.present_addWith, Forest.present_define, Forest.next_define]

/-- That frame holds `super` and stands inside of the current one. -/
theorem frame?_forestWith_next {found : Class} (hcurrent : m.forest.Present m.current) :
    (m.forestWith decl (some found) cls).frame? m.forest.next
      = some ⟨Table.empty.insert "super" (.classRef found), m.forest.chain m.current⟩ := by
  have hmade : (methodFrame (m.forest.define m.current decl.name.lexeme .nil) m.current
      (some found)).1.frame? m.forest.next
        = some ⟨Table.empty.insert "super" (.classRef found), m.forest.chain m.current⟩ := by
    rw [← Forest.chain_define, ← Forest.next_define]
    exact Forest.frame?_addWith_next
  rw [forestWith, Forest.frame?_define, if_neg hcurrent.ne_next, hmade]

/-- The methods of the class that is declared. -/
theorem findMethod?_declaredClass (serial : Nat) (frame : FrameId) (name : String) :
    (declaredClass decl parent serial frame).findMethod? name =
      match FunctionDecl.last? decl.methods name with
      | some method => some ⟨method, frame, name == "init"⟩
      | none => parent.bind fun parent => parent.findMethod? name := by
  rw [Class.findMethod?_eq, declaredClass, Class.parent?_mk]
  dsimp only
  rw [methodTable_find?_eq]
  cases FunctionDecl.last? decl.methods name <;> rfl

/-- A declaration whose superclass has been found does what it should. -/
theorem declareClass_declared (hcurrent : m.forest.Present m.current) (decl : ClassDecl)
    (parent : Option Class) :
    ∃ cls m', declareClass decl parent m = .ok () m' ∧ Declared m decl parent cls m' := by
  -- the methods are closed over the current frame, or the one with `super` that comes next
  have hscope : (methodFrame (m.forest.define m.current decl.name.lexeme .nil) m.current parent).2
      = m.methodScope parent := by
    cases parent with
    | none => rfl
    | some parent => exact Forest.next_define
  refine ⟨declaredClass decl parent m.nextSerial (m.methodScope parent), _,
    declareClass_run hcurrent decl parent, ?_⟩
  rw [hscope]
  exact {
    here := frame?_forestWith_current hcurrent
    elsewhere := fun _ hid hne => frame?_forestWith_of_ne hid hne
    frames := fun _ => present_forestWith
    superFrame := by
      rintro found ⟨⟩
      exact frame?_forestWith_next hcurrent
    fields := rfl
    hosts := rfl
    sink := rfl
    current := rfl
    serial := ⟨rfl, rfl⟩
    named := rfl
    inherits := Class.parent?_mk _ _
    methods := findMethod?_declaredClass _ _ }

/-! ## The statement -/

/-- Without a superclass the class is made at once. -/
theorem execute_classDecl_of_none {fuel : Nat} (h : decl.superclass = none) :
    execute (fuel + 1) (.classDecl decl) m
      = (declareClass decl none >>= fun _ => pure .normal) m := by
  obtain ⟨name, superclass, methods⟩ := decl
  cases h
  rfl

section Named

variable {fuel : Nat} {name : Token}

/-- A name of a superclass that nothing has is an undefined variable, and nothing has changed
by then. -/
theorem execute_classDecl_of_unbound (h : decl.superclass = some (.variable name))
    (hlookup : m.forest.lookup m.current name.lexeme = none) :
    execute (fuel + 2) (.classDecl decl) m = .error (.failed (.undefinedVariable name)) m := by
  obtain ⟨token, superclass, methods⟩ := decl
  cases h
  have hvalue : evaluate (fuel + 1) (.variable name) m
      = .error (.failed (.undefinedVariable name)) m := readVariable_of_none hlookup
  rw [execute]
  exact bind_of_error hvalue

/-- If it is the name of a class, the class is made from that one. -/
theorem execute_classDecl_of_classRef {found : Class}
    (h : decl.superclass = some (.variable name))
    (hlookup : m.forest.lookup m.current name.lexeme = some (.classRef found)) :
    execute (fuel + 2) (.classDecl decl) m
      = (declareClass decl (some found) >>= fun _ => pure .normal) m := by
  obtain ⟨token, superclass, methods⟩ := decl
  cases h
  have hvalue : evaluate (fuel + 1) (.variable name) m = .ok (.classRef found) m :=
    readVariable_of_some hlookup
  rw [execute]
  exact bind_of_ok hvalue

/-- If it is the name of anything else, nothing is made. -/
theorem execute_classDecl_of_noClass {value : Value} (h : decl.superclass = some (.variable name))
    (hlookup : m.forest.lookup m.current name.lexeme = some value)
    (hother : ∀ cls, value ≠ .classRef cls) :
    execute (fuel + 2) (.classDecl decl) m = .error (.failed (.superclassNotClass name)) m := by
  obtain ⟨token, superclass, methods⟩ := decl
  cases h
  have hvalue : evaluate (fuel + 1) (.variable name) m = .ok value m :=
    readVariable_of_some hlookup
  rw [execute]
  refine (bind_of_ok hvalue).trans ?_
  cases value with
  | classRef cls => exact absurd rfl (hother cls)
  | _ => rfl

end Named

/-- **A declaration is all or nothing.** -/
theorem execute_classDecl_outcome (hcurrent : m.forest.Present m.current)
    (hsuperclass : ∀ superclass ∈ decl.superclass, ∃ name, superclass = .variable name)
    (fuel : Nat) : ClassOutcome m decl (execute (fuel + 2) (.classDecl decl) m) := by
  cases hnamed : decl.superclass with
  | none =>
    obtain ⟨cls, m', hrun, hdeclared⟩ := declareClass_declared hcurrent decl none
    rw [execute_classDecl_of_none hnamed, bind_of_ok hrun]
    exact .declared (.none hnamed) hdeclared
  | some superclass =>
    obtain ⟨name, rfl⟩ := hsuperclass superclass hnamed
    cases hlookup : m.forest.lookup m.current name.lexeme with
    | none =>
      rw [execute_classDecl_of_unbound hnamed hlookup]
      exact .undefined hnamed hlookup
    | some value =>
      by_cases hclass : ∃ found, value = .classRef found
      · obtain ⟨found, rfl⟩ := hclass
        obtain ⟨cls, m', hrun, hdeclared⟩ := declareClass_declared hcurrent decl (some found)
        rw [execute_classDecl_of_classRef hnamed hlookup, bind_of_ok hrun]
        exact .declared (.some hnamed hlookup) hdeclared
      · have hother : ∀ cls, value ≠ .classRef cls := fun cls heq => hclass ⟨cls, heq⟩
        rw [execute_classDecl_of_noClass hnamed hlookup hother]
        exact .noClass hnamed hlookup hother

end Machine

end Lox
