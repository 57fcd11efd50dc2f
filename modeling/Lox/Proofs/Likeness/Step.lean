/-
`Lox.Proofs.Likeness.Step` -- machines that hold alike values.

Two runs go in parallel (`Parallel`) if from machines that are alike they come to machines
that are alike, and either both return related results, or both fail in one way and blame
counterparts, or both run out of the bound on their depth. Runs that are put together from
parallel ones are parallel, and so are the steps of the machine: a step finds a name by its
text, tells values apart by what can be seen of them, and prints nothing else.

An operator that fails as an unknown one is none that the grammar has (`Failure.Alike`).
-/
import Lox.Proofs.Likeness.Value

set_option autoImplicit false

namespace Lox

/-- Both are results, and these are related, or both are problems, and these are. -/
inductive ExceptRel {ε ε' α α' : Type} (bad : ε → ε' → Prop) (good : α → α' → Prop) :
    Except ε α → Except ε' α' → Prop
  | ok {a : α} {a' : α'} : good a a' → ExceptRel bad good (.ok a) (.ok a')
  | error {e : ε} {e' : ε'} : bad e e' → ExceptRel bad good (.error e) (.error e')

section Alike

variable (P : Role → Token → Token → Prop)

/-! ## Alike machines -/

/-- The failures are the same but for the tokens that they point at. These are
counterparts, or put in the place of counterparts. -/
inductive Failure.Alike : Failure → Failure → Prop
  | undefinedVariable {role : Role} {name name' : Token} :
    P role name name' → Alike (.undefinedVariable name) (.undefinedVariable name')
  /-- There is a `super` and no `this`, which is not in the program at that place. -/
  | missingReceiver {keyword keyword' : Token} :
    P .superclass keyword keyword' →
    Alike (.undefinedVariable (.plain .kwThis "this" keyword.span))
      (.undefinedVariable (.plain .kwThis "this" keyword'.span))
  | undefinedProperty {name name' : Token} :
    P .name name name' → Alike (.undefinedProperty name) (.undefinedProperty name')
  /-- An operator is unknown only if it does not fit its role. -/
  | operand {role : Role} {op op' : Token} {problem : OperandProblem} :
    P role op op' → (problem = .unknownOperator → role.fits op.kind = false) →
    Alike (.operand op problem) (.operand op' problem)
  | notCallable {paren paren' : Token} :
    P .closing paren paren' → Alike (.notCallable paren) (.notCallable paren')
  | arity {paren paren' : Token} (expected got : Nat) :
    P .closing paren paren' → Alike (.arity paren expected got) (.arity paren' expected got)
  | notAnInstance {name name' : Token} (access : Access) :
    P .name name name' → Alike (.notAnInstance name access) (.notAnInstance name' access)
  | superclassNotClass {name name' : Token} :
    P .name name name' → Alike (.superclassNotClass name) (.superclassNotClass name')
  | host (name message : String) : Alike (.host name message) (.host name message)
  | output (problem : String) : Alike (.output problem) (.output problem)

/-- From alike arguments the functions of the host make alike values, or they have the
same to say against them. -/
def HostBody.Alike (body body' : HostBody) : Prop :=
  ∀ args args', List.Forall₂ (Value.Alike P) args args' →
    ExceptRel Eq (Value.Alike P) (body args) (body' args')

/-- The machines hold alike values in the same places. -/
structure Machine.Alike (m m' : Machine) : Prop where
  forest : Forest.Alike (Value.Alike P) m.forest m'.forest
  current : m.current = m'.current
  fields : Pointwise (Table.Alike (Value.Alike P)) m.fields m'.fields
  hosts : Pointwise (HostBody.Alike P) m.hosts m'.hosts
  nextSerial : m.nextSerial = m'.nextSerial
  sink : m.sink = m'.sink

/-- The statements ended in one way. -/
inductive Completion.Alike : Completion → Completion → Prop
  | normal : Alike .normal .normal
  | returned {value value' : Value} :
    value.Alike P value' → Alike (.returned value) (.returned value')

/-- The pieces of work ended in one way. -/
inductive Verdict.Alike {α α' : Type} (good : α → α' → Prop) : Verdict α → Verdict α' → Prop
  | done {a : α} {a' : α'} : good a a' → Alike good (.done a) (.done a')
  | failed {failure failure' : Failure} :
    failure.Alike P failure' → Alike good (.failed failure) (.failed failure')
  | outOfFuel : Alike good .outOfFuel .outOfFuel

end Alike

namespace Machine

variable {P : Role → Token → Token → Prop} {α α' β β' : Type}

/-- The runs ended early in one way. -/
inductive Halt.Alike (P : Role → Token → Token → Prop) : Halt → Halt → Prop
  | failed {failure failure' : Failure} :
    failure.Alike P failure' → Alike P (.failed failure) (.failed failure')
  | outOfFuel : Alike P .outOfFuel .outOfFuel

/-- The runs ended in one way, with machines that are alike. -/
inductive Ended (P : Role → Token → Token → Prop) (good : α → α' → Prop) :
    EStateM.Result Halt Machine α → EStateM.Result Halt Machine α' → Prop
  | ok {a : α} {a' : α'} {m m' : Machine} :
    good a a' → m.Alike P m' → Ended P good (.ok a m) (.ok a' m')
  | error {halt halt' : Halt} {m m' : Machine} :
    halt.Alike P halt' → m.Alike P m' → Ended P good (.error halt m) (.error halt' m')

/-- From machines that are alike the runs end in one way. -/
def Parallel (P : Role → Token → Token → Prop) (good : α → α' → Prop) (x : Run α)
    (x' : Run α') : Prop :=
  ∀ m m', m.Alike P m' → Ended P good (x m) (x' m')

/-! ## Runs that are put together -/

namespace Parallel

variable {good : α → α' → Prop} {good' : β → β' → Prop} {x : Run α} {x' : Run α'}
  {f : α → Run β} {f' : α' → Run β'}

protected theorem pure {a : α} {a' : α'} (h : good a a') :
    Parallel P good (pure a) (pure a') :=
  fun _ _ hm => .ok h hm

/-- Failures that are alike are ends that are. -/
protected theorem fail {failure failure' : Failure} (h : failure.Alike P failure') :
    Parallel P good (fail failure) (fail failure') :=
  fun _ _ hm => .error (.failed h) hm

theorem outOfFuel : Parallel P good (throw .outOfFuel) (throw .outOfFuel) :=
  fun _ _ hm => .error .outOfFuel hm

/-- Runs after one another go in parallel if each does on what may have come before. -/
protected theorem bind (hx : Parallel P good x x')
    (hf : ∀ a a', good a a' → Parallel P good' (f a) (f' a')) :
    Parallel P good' (x >>= f) (x' >>= f') := by
  intro m m' hm
  have hfirst := hx m m' hm
  cases hrun : x m with
  | ok a m₁ =>
    rw [hrun] at hfirst
    cases hrun' : x' m' with
    | ok a' m₁' =>
      rw [hrun'] at hfirst
      cases hfirst with
      | ok ha hm₁ =>
        rw [bind_of_ok hrun, bind_of_ok hrun']
        exact hf a a' ha m₁ m₁' hm₁
    | error halt' m₁' =>
      rw [hrun'] at hfirst
      cases hfirst
  | error halt m₁ =>
    rw [hrun] at hfirst
    cases hrun' : x' m' with
    | ok a' m₁' =>
      rw [hrun'] at hfirst
      cases hfirst
    | error halt' m₁' =>
      rw [hrun'] at hfirst
      cases hfirst with
      | error hhalt hm₁ =>
        rw [bind_of_error hrun, bind_of_error hrun']
        exact .error hhalt hm₁

/-- Both runs return the same, and go on with it. -/
theorem same {x x' : Run α} {f : α → Run β} {f' : α → Run β'} (hx : Parallel P Eq x x')
    (hf : ∀ a, Parallel P good' (f a) (f' a)) : Parallel P good' (x >>= f) (x' >>= f') := by
  refine hx.bind ?_
  rintro a _ rfl
  exact hf a

/-- Both runs go on with their machines. -/
theorem get {f : Machine → Run β} {f' : Machine → Run β'}
    (hf : ∀ m m', m.Alike P m' → Parallel P good' (f m) (f' m')) :
    Parallel P good' (MonadState.get >>= f) (MonadState.get >>= f') :=
  fun m m' hm => hf m m' hm m m' hm

/-- Changes to the machine are alike if what they make is. -/
protected theorem modify {g g' : Machine → Machine}
    (h : ∀ m m', m.Alike P m' → (g m).Alike P (g' m')) :
    Parallel P Eq (modify g : Run Unit) (modify g') :=
  fun m m' hm => .ok rfl (h m m' hm)

protected theorem modifyGet {g : Machine → α × Machine} {g' : Machine → α' × Machine}
    (h : ∀ m m', m.Alike P m' → good (g m).1 (g' m').1 ∧ (g m).2.Alike P (g' m').2) :
    Parallel P good (modifyGet g : Run α) (modifyGet g') :=
  fun m m' hm => .ok (h m m' hm).1 (h m m' hm).2

/-- Computed results are alike, or their problems are. -/
protected theorem liftExcept {result : Except Failure α} {result' : Except Failure α'}
    (h : ExceptRel (Failure.Alike P) good result result') :
    Parallel P good (liftExcept result) (liftExcept result') := by
  cases h with
  | ok hgood => exact .pure hgood
  | error hbad => exact .fail hbad

/-- Working in another frame is alike, and both come back from it. -/
protected theorem within (frame : FrameId) (hx : Parallel P good x x') :
    Parallel P good (within frame x) (within frame x') := by
  intro m m' hm
  have hback : ∀ m₁ m₁' : Machine, m₁.Alike P m₁' →
      Machine.Alike P { m₁ with current := m.current } { m₁' with current := m'.current } :=
    fun _ _ h => ⟨h.forest, hm.current, h.fields, h.hosts, h.nextSerial, h.sink⟩
  have hinner := hx { m with current := frame } { m' with current := frame }
    ⟨hm.forest, rfl, hm.fields, hm.hosts, hm.nextSerial, hm.sink⟩
  unfold Machine.within
  generalize x { m with current := frame } = result at hinner
  generalize x' { m' with current := frame } = result' at hinner
  cases hinner with
  | ok hgood h => exact .ok hgood (hback _ _ h)
  | error hhalt h => exact .error hhalt (hback _ _ h)

end Parallel

/-! ## Steps that look at no token -/

section Steps

variable {value value' : Value}

/-- A name is bound to values that are alike. -/
theorem define_parallel (frame : FrameId) (name : String) (h : value.Alike P value') :
    Parallel P Eq (define frame name value) (define frame name value') :=
  .modify fun _ _ hm =>
    ⟨hm.forest.define frame name h, hm.current, hm.fields, hm.hosts, hm.nextSerial, hm.sink⟩

theorem defineHere_parallel (name : String) (h : value.Alike P value') :
    Parallel P Eq (defineHere name value) (defineHere name value') := by
  refine .modify fun m m' hm => ?_
  refine ⟨?_, hm.current, hm.fields, hm.hosts, hm.nextSerial, hm.sink⟩
  rw [← hm.current]
  exact hm.forest.define m.current name h

/-- What is found in the current frame is alike, or neither finds anything. -/
theorem lookupHere_parallel (name : String) :
    Parallel P (Option.Rel (Value.Alike P)) (lookupHere name) (lookupHere name) := by
  intro m m' hm
  rw [lookupHere_run, lookupHere_run, ← hm.current]
  exact .ok (hm.forest.lookup m.current name) hm

/-- A new frame has one number on both sides. -/
theorem newFrame_parallel (parent : FrameId) :
    Parallel P Eq (newFrame parent) (newFrame parent) :=
  .modifyGet fun _ _ hm => ⟨hm.forest.next,
    hm.forest.addChild parent, hm.current, hm.fields, hm.hosts, hm.nextSerial, hm.sink⟩

theorem newSerial_parallel : Parallel P Eq newSerial newSerial :=
  .modifyGet fun _ _ hm => ⟨hm.nextSerial,
    hm.forest, hm.current, hm.fields, hm.hosts, congrArg (· + 1) hm.nextSerial, hm.sink⟩

/-- Closures are alike as their functions are. -/
theorem newClosure_parallel {fn fn' : Closure} (h : fn.Alike P fn') :
    Parallel P (Value.Alike P) (newClosure fn) (newClosure fn') :=
  newSerial_parallel.same fun _ => .pure (.function h)

/-- A new instance is one on both sides. -/
theorem newInstance_parallel : Parallel P Eq newInstance newInstance :=
  .modifyGet fun _ _ hm => ⟨congrArg InstanceId.mk hm.fields.size,
    hm.forest, hm.current, hm.fields.push .empty, hm.hosts, hm.nextSerial, hm.sink⟩

/-- Bound methods are alike, and closed over one frame. -/
theorem bind_parallel {method method' : Closure} (h : method.Alike P method')
    (hvalue : value.Alike P value') :
    Parallel P (Closure.Alike P) (bind method value) (bind method' value') := by
  unfold Machine.bind
  rw [h.frame]
  refine (newFrame_parallel _).same fun frame => ?_
  exact (define_parallel frame "this" hvalue).same fun _ =>
    .pure ⟨h.decl, rfl, h.isInitializer⟩

/-- Fields hold values that are alike. -/
theorem writeField_parallel (id : InstanceId) (name : String) (h : value.Alike P value') :
    Parallel P Eq (writeField id name value) (writeField id name value') := by
  refine .modify fun m m' hm => ?_
  refine ⟨hm.forest, hm.current, ?_, hm.hosts, hm.nextSerial, hm.sink⟩
  exact hm.fields.modify id.index fun _ _ hfields => hfields.insert name h

/-- A function of the host makes values that are alike of arguments that are. -/
theorem callHost_parallel (fn : HostFunction) {args args' : List Value}
    (h : List.Forall₂ (Value.Alike P) args args') :
    Parallel P (Value.Alike P) (callHost fn args) (callHost fn args') := by
  refine .get fun m m' hm => ?_
  have hbody := hm.hosts.get? fn.index
  generalize m.hosts[fn.index]? = found at hbody
  generalize m'.hosts[fn.index]? = found' at hbody
  cases hbody with
  | none => exact .pure (.plain trivial)
  | @some body body' hbody =>
    have hresult := hbody args args' h
    dsimp only
    generalize body args = result at hresult
    generalize body' args' = result' at hresult
    cases hresult with
    | ok hvalue => exact .pure hvalue
    | error hmessage =>
      subst hmessage
      exact .fail (.host _ _)

/-- Both sinks take the line, or both fail. -/
theorem printLine_parallel (text : String) :
    Parallel P Eq (printLine text) (printLine text) := by
  intro m m' hm
  unfold printLine
  dsimp only
  rw [← hm.sink]
  have hwritten : Machine.Alike P { m with sink := m.sink.write (text ++ "\n") }
      { m' with sink := m.sink.write (text ++ "\n") } :=
    ⟨hm.forest, hm.current, hm.fields, hm.hosts, hm.nextSerial, rfl⟩
  split
  · exact .ok rfl hwritten
  · exact .error (.failed (.output _)) hwritten

/-- Both are flushed, or both fail. -/
theorem flush_parallel : Parallel P Eq flush flush := by
  refine .get fun m m' hm => ?_
  rw [← hm.sink]
  split
  · exact .fail (.output _)
  · exact .pure rfl

end Steps

/-! ## Operators -/

section Operators

variable {op op' : Token} {left left' right right' operand operand' : Value}

/-- Numbers are alike if they are one, so an operator gives one result. -/
theorem onNumbers_alike {f : Float → Float → Value} (hf : ∀ x y, (f x y).Plain)
    (hop : Failure.Alike P (.operand op .notNumbers) (.operand op' .notNumbers))
    (hleft : left.Alike P left') (hright : right.Alike P right') :
    ExceptRel (Failure.Alike P) (Value.Alike P) (onNumbers op f left right)
      (onNumbers op' f left' right') := by
  cases hleft with
  | @plain left _ =>
    cases left with
    | number x =>
      cases hright with
      | @plain right _ =>
        cases right with
        | number y => exact .ok (.plain (hf x y))
        | _ => exact .error hop
      | _ => exact .error hop
    | _ => exact .error hop
  | _ => exact .error hop

/-- Sums and joined texts are one on both sides. -/
theorem sumOrJoin_alike
    (hop : Failure.Alike P (.operand op .notNumbersOrStrings) (.operand op' .notNumbersOrStrings))
    (hleft : left.Alike P left') (hright : right.Alike P right') :
    ExceptRel (Failure.Alike P) (Value.Alike P) (sumOrJoin op left right)
      (sumOrJoin op' left' right') := by
  cases hleft with
  | @plain left _ =>
    cases left with
    | number x =>
      cases hright with
      | @plain right _ =>
        cases right with
        | number y => exact .ok (.plain trivial)
        | _ => exact .error hop
      | _ => exact .error hop
    | text s =>
      cases hright with
      | @plain right _ =>
        cases right with
        | text t => exact .ok (.plain trivial)
        | _ => exact .error hop
      | _ => exact .error hop
    | _ => exact .error hop
  | _ => exact .error hop

variable (hP : ∀ role t t', P role t t' → t.SameWord t')
include hP

/-- A sign gives results that are alike. -/
theorem unaryResult_alike (hop : P .sign op op') (h : operand.Alike P operand') :
    ExceptRel (Failure.Alike P) (Value.Alike P) (unaryResult op operand)
      (unaryResult op' operand') := by
  unfold unaryResult
  rw [← (hP _ _ _ hop).kind]
  cases hkind : op.kind with
  | bang =>
    dsimp only
    rw [h.isTruthy]
    exact .ok (.plain trivial)
  | minus =>
    have hnumber : Failure.Alike P (.operand op .notNumber) (.operand op' .notNumber) :=
      .operand hop nofun
    cases h with
    | @plain operand _ =>
      cases operand with
      | number x => exact .ok (.plain trivial)
      | _ => exact .error hnumber
    | _ => exact .error hnumber
  -- of all the other kinds none fits the role
  | _ => exact .error (.operand hop fun _ => by rw [hkind]; rfl)

/-- So does an operator, as its counterpart is of the same kind. -/
theorem binaryResult_alike (hop : P .operator op op') (hleft : left.Alike P left')
    (hright : right.Alike P right') :
    ExceptRel (Failure.Alike P) (Value.Alike P) (binaryResult op left right)
      (binaryResult op' left' right') := by
  have hnumbers : Failure.Alike P (.operand op .notNumbers) (.operand op' .notNumbers) :=
    .operand hop nofun
  unfold binaryResult
  rw [← (hP _ _ _ hop).kind]
  cases hkind : op.kind with
  | plus => exact sumOrJoin_alike (.operand hop nofun) hleft hright
  | equalEqual | bangEqual =>
    rw [hleft.equals hright]
    exact .ok (.plain trivial)
  | minus | star | slash | greater | greaterEqual | less | lessEqual =>
    exact onNumbers_alike (fun _ _ => trivial) hnumbers hleft hright
  | _ => exact .error (.operand hop fun _ => by rw [hkind]; rfl)

/-- Both operands decide, or neither does. -/
theorem shortCircuits_alike (hop : P .connective op op') (h : left.Alike P left') :
    ExceptRel (Failure.Alike P) Eq (shortCircuits op left) (shortCircuits op' left') := by
  unfold shortCircuits
  rw [← (hP _ _ _ hop).kind]
  cases hkind : op.kind with
  | kwOr => exact .ok h.isTruthy
  | kwAnd => exact .ok (congrArg _ h.isTruthy)
  | _ => exact .error (.operand hop fun _ => by rw [hkind]; rfl)

end Operators

/-! ## Steps that look at a token -/

section Tokens

variable (hP : ∀ role t t', P role t t' → t.SameWord t')
include hP

variable {role : Role} {name name' keyword keyword' method method' : Token} {value value' : Value}
  {cls cls' : Class}

/-- Variables are looked up by lexemes, which counterparts share. -/
theorem readVariable_parallel (h : P role name name') :
    Parallel P (Value.Alike P) (readVariable name) (readVariable name') := by
  unfold readVariable
  rw [← (hP _ _ _ h).lexeme]
  refine (lookupHere_parallel name.lexeme).bind fun found found' hfound => ?_
  cases hfound with
  | none => exact .fail (.undefinedVariable h)
  | some hvalue => exact .pure hvalue

theorem writeVariable_parallel (h : P role name name') (hvalue : value.Alike P value') :
    Parallel P Eq (writeVariable name value) (writeVariable name' value') := by
  refine .get fun m m' hm => ?_
  -- which frame owns the name does not depend on the values, so both runs write to one
  rw [← (hP _ _ _ h).lexeme, ← hm.current, ← hm.forest.owner? m.current name.lexeme]
  cases m.forest.owner? m.current name.lexeme with
  | none => exact .fail (.undefinedVariable h)
  | some owner => exact define_parallel owner name.lexeme hvalue

/-- Properties are found by lexemes too, first among the fields and then among the methods. -/
theorem readProperty_parallel (hcls : cls.Alike P cls') (id : InstanceId)
    (h : P .name name name') :
    Parallel P (Value.Alike P) (readProperty cls id name) (readProperty cls' id name') := by
  unfold readProperty
  rw [← (hP _ _ _ h).lexeme]
  refine .get fun m m' hm => ?_
  -- a field is found in both instances or in neither, and so is a method
  have hfields := hm.fields.get? id.index
  have hmethod := hcls.findMethod? name.lexeme
  have hfound : Option.Rel (Value.Alike P)
      (m.fields[id.index]?.bind fun fields => fields.find? name.lexeme)
      (m'.fields[id.index]?.bind fun fields => fields.find? name.lexeme) := by
    generalize m.fields[id.index]? = fields at hfields
    generalize m'.fields[id.index]? = fields' at hfields
    cases hfields with
    | none => exact .none
    | some hfields => exact hfields.find? name.lexeme
  generalize (m.fields[id.index]?.bind fun fields => fields.find? name.lexeme) = found at hfound
  generalize (m'.fields[id.index]?.bind fun fields => fields.find? name.lexeme) = found' at hfound
  cases hfound with
  | some hvalue => exact .pure hvalue
  | none =>
    dsimp only
    generalize cls.findMethod? name.lexeme = found at hmethod
    generalize cls'.findMethod? name.lexeme = found' at hmethod
    cases hmethod with
    | none => exact .fail (.undefinedProperty h)
    | some hfn =>
      exact (bind_parallel hfn (.instanceOf hcls)).bind fun _ _ => newClosure_parallel

/-- What `super` gives is bound to receivers that are alike. -/
theorem readSuper_parallel (hkeyword : P .superclass keyword keyword')
    (hmethod : P .name method method') :
    Parallel P (Value.Alike P) (readSuper keyword method) (readSuper keyword' method') := by
  unfold readSuper
  rw [← (hP _ _ _ hmethod).lexeme]
  refine (lookupHere_parallel "super").bind fun parent parent' hparent => ?_
  -- without a class to look in, both runs lack the same `super`
  have hlost : Parallel P (Value.Alike P) (fail (.undefinedVariable keyword))
      (fail (.undefinedVariable keyword')) := .fail (.undefinedVariable hkeyword)
  cases hparent with
  | none => exact hlost
  | @some parent parent' hparent =>
    cases hparent with
    | plain hplain => cases parent <;> first | exact hlost | exact hplain.elim
    | function _ | instanceOf _ => exact hlost
    | classRef hparent =>
      refine (lookupHere_parallel "this").bind fun receiver receiver' hreceiver => ?_
      -- what stands for a receiver that is missing is made from the keyword, and its place is
      -- alike
      have hmissing : Parallel P (Value.Alike P)
          (fail (.undefinedVariable (.plain .kwThis "this" keyword.span)))
          (fail (.undefinedVariable (.plain .kwThis "this" keyword'.span))) :=
        .fail (.missingReceiver hkeyword)
      cases hreceiver with
      | none => exact hmissing
      | @some receiver receiver' hreceiver =>
        cases hreceiver with
        | plain hplain => cases receiver <;> first | exact hmissing | exact hplain.elim
        | function _ | classRef _ => exact hmissing
        | instanceOf hcls =>
          have hfound := hparent.findMethod? method.lexeme
          dsimp only
          generalize Class.findMethod? _ method.lexeme = found at hfound
          generalize Class.findMethod? _ method.lexeme = found' at hfound
          cases hfound with
          | none => exact .fail (.undefinedProperty hmethod)
          | some hfn =>
            exact (bind_parallel hfn (.instanceOf hcls)).bind fun _ _ => newClosure_parallel

end Tokens

end Machine

end Lox
