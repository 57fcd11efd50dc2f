/-
`Lox.Proofs.Machine.Composed` -- what told runs are made of.

The told evaluator is put together from few things: it tells an event, makes a step of the
machine, prints what an expression evaluates to, looks at a part of the machine, goes on with
another run, or runs within another frame (`Composed`). What holds of these and is kept by
putting two runs after one another holds of every run, and does not have to be followed
through the seven functions again.

Of the steps, two have to do with the sink: one prints a line and one hands the output on.
All others are quiet. They neither print nor look at what was printed.
-/
import Lox.Proofs.Machine.CurrentFrame
import Lox.Proofs.Machine.Story

set_option autoImplicit false

namespace Lox.Machine

variable {α β : Type}

/-! ## Quiet steps -/

/-- The end of a run, with another sink in the machine. -/
def withSink (sink : Sink) : EStateM.Result Halt Machine α → EStateM.Result Halt Machine α
  | .ok a m => .ok a { m with sink }
  | .error halt m => .error halt { m with sink }

/-- With another sink the run does the same, and leaves the sink alone. It is in the same
frame afterwards. -/
structure Quiet (y : Run α) : Prop where
  sink : ∀ (m : Machine) (sink : Sink), y { m with sink } = withSink sink (y m)
  current : KeepsCurrent y

namespace Quiet

variable {x : Run α} {f : α → Run β}

protected theorem pure (a : α) : Quiet (pure a : Run α) :=
  ⟨fun _ _ => rfl, .pure a⟩

/-- A failure does not depend on the sink. -/
protected theorem fail (failure : Failure) : Quiet (fail failure : Run α) :=
  ⟨fun _ _ => rfl, .fail failure⟩

/-- Runs after one another are quiet if both are. -/
protected theorem bind (hx : Quiet x) (hf : ∀ a, Quiet (f a)) : Quiet (x >>= f) := by
  refine ⟨fun m sink => ?_, hx.current.bind fun a => (hf a).current⟩
  have hfirst := hx.sink m sink
  cases hrun : x m with
  | ok a m' =>
    rw [hrun] at hfirst
    rw [bind_of_ok hrun, bind_of_ok hfirst]
    exact (hf a).sink m' sink
  | error halt m' =>
    rw [hrun] at hfirst
    rw [bind_of_error hrun, bind_of_error hfirst]
    rfl

/-- The run goes on with a part of the machine that is not the sink. -/
theorem get {f : Machine → Run β} (hsink : ∀ m sink, f { m with sink } = f m)
    (hf : ∀ m, Quiet (f m)) : Quiet (MonadState.get >>= f) := by
  refine ⟨fun m sink => ?_, KeepsCurrent.get.bind fun m => (hf m).current⟩
  show f { m with sink } { m with sink } = withSink sink (f m m)
  rw [hsink]
  exact (hf m).sink m sink

protected theorem liftExcept (result : Except Failure α) : Quiet (liftExcept result) := by
  cases result with
  | ok a => exact .pure a
  | error failure => exact .fail failure

end Quiet

section Steps

/-- Frames can be changed without printing. -/
theorem define_quiet (frame : FrameId) (name : String) (value : Value) :
    Quiet (define frame name value) :=
  ⟨fun _ _ => rfl, define_keepsCurrent frame name value⟩

theorem defineHere_quiet (name : String) (value : Value) : Quiet (defineHere name value) :=
  ⟨fun _ _ => rfl, defineHere_keepsCurrent name value⟩

theorem lookupHere_quiet (name : String) : Quiet (lookupHere name) :=
  ⟨fun _ _ => rfl, lookupHere_keepsCurrent name⟩

theorem newFrame_quiet (parent : FrameId) : Quiet (newFrame parent) :=
  ⟨fun _ _ => rfl, newFrame_keepsCurrent parent⟩

/-- So can the count of what has been made. -/
theorem newSerial_quiet : Quiet newSerial :=
  ⟨fun _ _ => rfl, newSerial_keepsCurrent⟩

theorem newInstance_quiet : Quiet newInstance :=
  ⟨fun _ _ => rfl, newInstance_keepsCurrent⟩

theorem writeField_quiet (id : InstanceId) (name : String) (value : Value) :
    Quiet (writeField id name value) :=
  ⟨fun _ _ => rfl, writeField_keepsCurrent id name value⟩

theorem newClosure_quiet (fn : Closure) : Quiet (newClosure fn) :=
  newSerial_quiet.bind fun _ => .pure _

/-- Reading a variable prints nothing, found or not. -/
theorem readVariable_quiet (name : Token) : Quiet (readVariable name) := by
  refine (lookupHere_quiet _).bind fun found => ?_
  cases found with
  | some value => exact .pure value
  | none => exact .fail _

theorem writeVariable_quiet (name : Token) (value : Value) :
    Quiet (writeVariable name value) := by
  refine .get (fun _ _ => rfl) fun m => ?_
  cases m.forest.owner? m.current name.lexeme with
  | some owner => exact define_quiet _ _ _
  | none => exact .fail _

theorem bind_quiet (method : Closure) (receiver : Value) : Quiet (bind method receiver) :=
  (newFrame_quiet _).bind fun _ => (define_quiet _ _ _).bind fun _ => .pure _

/-- Nor does reading a property, even if it makes a bound method. -/
theorem readProperty_quiet (cls : Class) (id : InstanceId) (name : Token) :
    Quiet (readProperty cls id name) := by
  refine .get (fun _ _ => rfl) fun m => ?_
  split
  · exact .pure _
  · split
    · exact (bind_quiet _ _).bind fun _ => newClosure_quiet _
    · exact .fail _

theorem readSuper_quiet (keyword method : Token) : Quiet (readSuper keyword method) := by
  refine (lookupHere_quiet _).bind fun parent => ?_
  split
  · refine (lookupHere_quiet _).bind fun receiver => ?_
    split
    · split
      · exact (bind_quiet _ _).bind fun _ => newClosure_quiet _
      · exact .fail _
    · exact .fail _
  · exact .fail _

/-- A function of the host has no sink to print to. -/
theorem callHost_quiet (fn : HostFunction) (args : List Value) : Quiet (callHost fn args) := by
  refine .get (fun _ _ => rfl) fun m => ?_
  split
  · split
    · exact .pure _
    · exact .fail _
  · exact .pure _

/-- Parameters are bound one by one, and quietly. -/
theorem bindParameters_quiet (frame : FrameId) (params : List Token) (args : List Value) :
    Quiet (bindParameters frame params args) := by
  unfold bindParameters
  induction params.zip args with
  | nil => exact .pure _
  | cons pair rest ih => exact (define_quiet _ _ _).bind fun _ => ih

/-- So are the names of a class and of its superclass. -/
theorem declareClass_quiet (decl : ClassDecl) (parent : Option Class) :
    Quiet (declareClass decl parent) := by
  refine (defineHere_quiet _ _).bind fun _ => ?_
  cases parent with
  | some parent =>
    exact .get (fun _ _ => rfl) fun _ => (newFrame_quiet _).bind fun _ =>
      (define_quiet _ _ _).bind fun _ => (Quiet.pure _).bind fun _ =>
      newSerial_quiet.bind fun _ => writeVariable_quiet _ _
  | none =>
    exact .get (fun _ _ => rfl) fun _ => (Quiet.pure _).bind fun _ =>
      newSerial_quiet.bind fun _ => writeVariable_quiet _ _

end Steps

/-! ## Told runs -/

variable {G : Type}

/-- Looks at a part of the machine. -/
def Tell.view (part : Machine → α) : Telling G α := fun w =>
  .ok (part w.machine) w

/-- Prints the value of an expression, as a statement does. -/
def Tell.print (note : Event → Machine → G → G) (fuel : Nat) (expr : Expr) :
    Telling G Completion := do
  tell note (.executes (.print expr))
  let value ← Tell.evaluate note fuel expr
  tacit note (printLine value.display)
  return .normal

/-- The told runs that are put together from steps. What they look at is never the sink, and
they print only in a statement for this. -/
inductive Composed (note : Event → Machine → G → G) : {α : Type} → Telling G α → Prop
  | pure {α : Type} (a : α) : Composed note (pure a)
  | outOfFuel {α : Type} : Composed note (throw .outOfFuel : Telling G α)
  | tell (event : Event) : Composed note (tell note event)
  | quiet {α : Type} {y : Run α} : Quiet y → Composed note (tacit note y)
  | print {fuel : Nat} {expr : Expr} :
    Composed note (Tell.evaluate note fuel expr) → Composed note (Tell.print note fuel expr)
  | flush : Composed note (tacit note flush)
  | view {α : Type} {part : Machine → α} :
    (∀ m sink, part { m with sink } = part m) → Composed note (Tell.view part)
  | bind {α β : Type} {x : Telling G α} {f : α → Telling G β} :
    Composed note x → (∀ a, Composed note (f a)) → Composed note (x >>= f)
  | within {α : Type} {x : Telling G α} (frame : FrameId) :
    Composed note x → Composed note (Tell.within frame x)

variable {note : Event → Machine → G → G}

/-- It is told what happens, and then the run goes on. -/
theorem Composed.told {event : Event} {x : Telling G α} (hx : Composed note x) :
    Composed note (Machine.tell note event >>= fun _ => x) :=
  .bind (.tell event) fun _ => hx

/-- A run that goes on with a part of the machine. -/
theorem Composed.get (part : Machine → α) {f : α → Telling G β}
    (hpart : ∀ m sink, part { m with sink } = part m) (hf : ∀ a, Composed note (f a)) :
    Composed note (MonadState.get >>= fun w : Story G => f (part w.machine)) := by
  have hview : (MonadState.get >>= fun w : Story G => f (part w.machine)) = Tell.view part >>= f :=
    rfl
  rw [hview]
  exact .bind (.view hpart) hf

/-- The functions of the told evaluator are composed, with one bound on the depth. -/
structure ComposedAt (note : Event → Machine → G → G) (fuel : Nat) : Prop where
  evaluate : ∀ expr, Composed note (Tell.evaluate note fuel expr)
  evaluateEach : ∀ exprs, Composed note (Tell.evaluateEach note fuel exprs)
  call : ∀ callee paren args, Composed note (Tell.call note fuel callee paren args)
  invoke : ∀ callee args, Composed note (Tell.invoke note fuel callee args)
  execute : ∀ stmt, Composed note (Tell.execute note fuel stmt)
  executeEach : ∀ stmts, Composed note (Tell.executeEach note fuel stmts)
  repeatWhile : ∀ condition body, Composed note (Tell.repeatWhile note fuel condition body)

namespace ComposedAt

/-- Without fuel a run is a halt. -/
theorem zero : ComposedAt note 0 where
  evaluate _ := .outOfFuel
  evaluateEach _ := .outOfFuel
  call _ _ _ := .outOfFuel
  invoke _ _ := .outOfFuel
  execute _ := .outOfFuel
  executeEach _ := .outOfFuel
  repeatWhile _ _ := .outOfFuel

section Step

variable {fuel : Nat} (ih : ComposedAt note fuel)
include ih

/-- Expressions are composed of quiet steps and of calls. -/
theorem evaluate_succ (expr : Expr) : Composed note (Tell.evaluate note (fuel + 1) expr) := by
  refine .told ?_
  cases expr with
  | literal value => exact .pure _
  | grouping inner => exact ih.evaluate inner
  | unary op operand => exact (ih.evaluate operand).bind fun _ => .quiet (.liftExcept _)
  | binary left op right =>
    exact (ih.evaluate left).bind fun _ => (ih.evaluate right).bind fun _ =>
      .quiet (.liftExcept _)
  | logical left op right =>
    refine (ih.evaluate left).bind fun _ => (Composed.quiet (.liftExcept _)).bind fun short => ?_
    cases short with
    | true => exact .pure _
    | false => exact ih.evaluate right
  | «variable» name => exact .quiet (readVariable_quiet name)
  | assign name value =>
    exact (ih.evaluate value).bind fun _ => (Composed.quiet (writeVariable_quiet name _)).bind
      fun _ => .pure _
  | call callee paren args =>
    exact (ih.evaluate callee).bind fun _ => (ih.evaluateEach args).bind fun _ => ih.call _ _ _
  | get object name =>
    refine (ih.evaluate object).bind fun object => ?_
    cases object with
    | instanceOf cls id =>
      exact .told (.quiet (readProperty_quiet cls id name))
    | _ => exact .quiet (.fail _)
  | set object name value =>
    refine (ih.evaluate object).bind fun object => ?_
    cases object with
    | instanceOf cls id =>
      exact (ih.evaluate value).bind fun _ =>
        (Composed.quiet (writeField_quiet id name.lexeme _)).bind fun _ => .pure _
    | _ => exact .quiet (.fail _)
  | this keyword => exact .quiet (readVariable_quiet keyword)
  | super keyword method => exact .told (.quiet (readSuper_quiet keyword method))

theorem evaluateEach_succ (exprs : List Expr) :
    Composed note (Tell.evaluateEach note (fuel + 1) exprs) := by
  cases exprs with
  | nil => exact .pure _
  | cons expr rest =>
    exact (ih.evaluate expr).bind fun _ => (ih.evaluateEach rest).bind fun _ => .pure _

/-- A call is composed of its checks and of the run of a callee. -/
theorem call_succ (callee : Value) (paren : Token) (args : List Value) :
    Composed note (Tell.call note (fuel + 1) callee paren args) := by
  unfold Tell.call Followed.call
  cases Callee.ofValue? callee with
  | none => exact .quiet (.fail _)
  | some callee =>
    dsimp only
    split
    · exact ih.invoke callee args
    · exact .quiet (.fail _)

/-- The run of a callee is that of a body, or quiet. -/
theorem invoke_succ (callee : Callee) (args : List Value) :
    Composed note (Tell.invoke note (fuel + 1) callee args) := by
  refine .told ?_
  cases callee with
  | host fn => exact .quiet (callHost_quiet fn args)
  | function fn =>
    refine .told ((Composed.quiet (newFrame_quiet fn.frame)).bind fun frame => ?_)
    refine (Composed.quiet (bindParameters_quiet frame fn.decl.params args)).bind fun _ => ?_
    refine ((ih.executeEach fn.decl.body).within frame).bind fun completion => ?_
    -- an initializer looks up `this`, in the frames and not in the sink
    split
    · have hreturn : ∀ value : Value, Composed note (pure value) := fun value => .pure value
      exact .get (fun m => (m.forest.lookup fn.frame "this").getD .nil) (fun _ _ => rfl) hreturn
    · cases completion with
      | normal => exact .pure _
      | returned value => exact .pure _
  | classRef cls =>
    refine (Composed.quiet newInstance_quiet).bind fun id => ?_
    cases cls.findMethod? "init" with
    | some init =>
      exact .told ((Composed.quiet (bind_quiet init _)).bind fun _ =>
        (ih.invoke _ _).bind fun _ => .pure _)
    | none => exact .pure _

/-- A statement that prints is the only one that does, and it is a part of its own. -/
theorem execute_succ (stmt : Stmt) : Composed note (Tell.execute note (fuel + 1) stmt) := by
  cases stmt with
  | expression expr => exact .told ((ih.evaluate expr).bind fun _ => .pure _)
  | print expr => exact .print (ih.evaluate expr)
  | varDecl name initializer =>
    refine .told ?_
    cases initializer with
    | some expr =>
      exact (ih.evaluate expr).bind fun _ => (Composed.quiet (defineHere_quiet _ _)).bind
        fun _ => .pure _
    | none =>
      exact (Composed.pure _).bind fun _ => (Composed.quiet (defineHere_quiet _ _)).bind
        fun _ => .pure _
  | block body =>
    -- the only thing that is looked at is the current frame
    have hblock : ∀ parent : FrameId, Composed note (do
        tell note (.enters parent)
        let frame ← tacit note (newFrame parent)
        Tell.within frame (Tell.executeEach note fuel body)) :=
      fun parent => .told ((Composed.quiet (newFrame_quiet parent)).bind
        fun frame => (ih.executeEach body).within frame)
    exact .told (.get Machine.current (fun _ _ => rfl) hblock)
  | ifElse condition thenBranch elseBranch =>
    refine .told ((ih.evaluate condition).bind fun value => ?_)
    split
    · exact ih.execute thenBranch
    · cases elseBranch with
      | some elseBranch => exact ih.execute elseBranch
      | none => exact .pure _
  | whileLoop condition body => exact .told (ih.repeatWhile condition body)
  | funDecl decl =>
    have hdeclare : ∀ frame : FrameId, Composed note (do
        let value ← tacit note (newClosure ⟨decl, frame, false⟩)
        tacit note (defineHere decl.name.lexeme value)
        return Completion.normal) :=
      fun frame => (Composed.quiet (newClosure_quiet ⟨decl, frame, false⟩)).bind fun _ =>
        (Composed.quiet (defineHere_quiet _ _)).bind fun _ => .pure _
    exact .told (.get Machine.current (fun _ _ => rfl) hdeclare)
  | returnStmt keyword value =>
    cases value with
    | some expr => exact .told ((ih.evaluate expr).bind fun _ => .pure _)
    | none => exact .told (.pure _)
  | classDecl decl =>
    obtain ⟨name, superclass, methods⟩ := decl
    refine .told ?_
    cases superclass with
    | none =>
      exact .told ((Composed.quiet (declareClass_quiet _ _)).bind fun _ => .pure _)
    | some superclass =>
      refine (ih.evaluate superclass).bind fun value => ?_
      cases value with
      | classRef parent =>
        exact .told ((Composed.quiet (declareClass_quiet _ _)).bind fun _ => .pure _)
      | _ => exact .quiet (.fail _)

/-- Statements in a row are composed if each is. -/
theorem executeEach_succ (stmts : List Stmt) :
    Composed note (Tell.executeEach note (fuel + 1) stmts) := by
  cases stmts with
  | nil => exact .pure _
  | cons stmt rest =>
    refine (ih.execute stmt).bind fun completion => ?_
    cases completion with
    | normal => exact ih.executeEach rest
    | returned value => exact .pure _

theorem repeatWhile_succ (condition : Expr) (body : Stmt) :
    Composed note (Tell.repeatWhile note (fuel + 1) condition body) := by
  refine (ih.evaluate condition).bind fun value => ?_
  split
  · refine (ih.execute body).bind fun completion => ?_
    cases completion with
    | normal => exact ih.repeatWhile condition body
    | returned value => exact .pure _
  · exact .pure _

/-- Together they are composed with one unit more of the bound. -/
theorem succ : ComposedAt note (fuel + 1) where
  evaluate := ih.evaluate_succ
  evaluateEach := ih.evaluateEach_succ
  call := ih.call_succ
  invoke := ih.invoke_succ
  execute := ih.execute_succ
  executeEach := ih.executeEach_succ
  repeatWhile := ih.repeatWhile_succ

end Step

/-- They are composed with any bound. -/
protected theorem all (fuel : Nat) : ComposedAt note fuel := by
  induction fuel with
  | zero => exact zero
  | succ fuel ih => exact ih.succ

end ComposedAt

/-- So is a program, which flushes its sink at the end. -/
theorem runProgram_composed (fuel : Nat) (stmts : List Stmt) :
    Composed note (Tell.runProgram note fuel stmts) := by
  induction stmts with
  | nil => exact .flush
  | cons stmt rest ih => exact ((ComposedAt.all fuel).execute stmt).bind fun _ => ih

end Lox.Machine
