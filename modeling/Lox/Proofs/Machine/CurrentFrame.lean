/-
`Lox.Proofs.Machine.CurrentFrame` -- every piece of work leaves the current frame
as it found it.

Only `Machine.within` sets another frame as the current one, and it sets the old
one back however the run inside it ends. So the frame can be followed without
looking at how runs end: a step keeps it, a sequence of steps that keep it keeps
it, and what happens inside `within` is of no account. The evaluator is put
together from such steps, and the induction is on its bound: each of its seven
functions only calls the seven with a smaller one.

A session starts in the global frame, so between two requests that is the frame
a machine is in, whatever was asked of it before and however that ended.
-/
import Lox.Machine.Session

set_option autoImplicit false

namespace Lox.Machine

/-! ## Runs that keep the current frame -/

/-- However the run ends, the frame that was current before is current again. -/
def KeepsCurrent {α : Type} (run : Run α) : Prop :=
  ∀ m : Machine, (m.perform run).2.current = m.current

namespace KeepsCurrent

variable {α β : Type}

/-- The two ways a run can end, apart: what it takes to keep the frame. -/
theorem of_ends {run : Run α}
    (hok : ∀ m a m', run m = .ok a m' → m'.current = m.current)
    (herr : ∀ m halt m', run m = .error halt m' → m'.current = m.current) :
    KeepsCurrent run := by
  intro m
  unfold perform
  split
  · next a m' h => exact hok m a m' h
  · next failure m' h => exact herr m _ m' h
  · next m' h => exact herr m _ m' h

/-- A run that comes to its end leaves the frame current. -/
theorem current_of_ok {run : Run α} (h : KeepsCurrent run) {m m' : Machine} {a : α}
    (hrun : run m = .ok a m') : m'.current = m.current := by
  have hm := h m
  rwa [perform, hrun] at hm

/-- So does one that fails or uses up its bound. -/
theorem current_of_error {run : Run α} (h : KeepsCurrent run) {m m' : Machine} {halt : Halt}
    (hrun : run m = .error halt m') : m'.current = m.current := by
  have hm := h m
  cases halt <;> rwa [perform, hrun] at hm

/-! ### Steps -/

protected theorem pure (a : α) : KeepsCurrent (pure a : Run α) := fun _ => rfl

protected theorem throw (halt : Halt) : KeepsCurrent (throw halt : Run α) := by
  intro m
  cases halt <;> rfl

protected theorem get : KeepsCurrent (get : Run Machine) := fun _ => rfl

/-- A change of the machine that leaves the field alone. -/
protected theorem modifyGet {f : Machine → α × Machine} (h : ∀ m, (f m).2.current = m.current) :
    KeepsCurrent (modifyGet f : Run α) := fun m => h m

/-- Changes to the rest of the machine do. -/
protected theorem modify {f : Machine → Machine} (h : ∀ m, (f m).current = m.current) :
    KeepsCurrent (modify f : Run Unit) := fun m => h m

/-- Two runs after one another. Whether the second one takes place is up to the
first, so the two ends of the first are looked at apart. -/
protected theorem bind {x : Run α} {f : α → Run β} (hx : KeepsCurrent x)
    (hf : ∀ a, KeepsCurrent (f a)) : KeepsCurrent (x >>= f) := by
  intro m
  cases h : x m with
  | ok a m' =>
    have hbind : (x >>= f) m = f a m' := by
      show EStateM.bind x f m = f a m'
      rw [EStateM.bind, h]
    have hperform : m.perform (x >>= f) = m'.perform (f a) := by
      rw [perform, perform, hbind]
    rw [hperform, hf a m', hx.current_of_ok h]
  | error halt m' =>
    have hbind : (x >>= f) m = .error halt m' := by
      show EStateM.bind x f m = _
      rw [EStateM.bind, h]
    have hperform : (m.perform (x >>= f)).2 = m' := by
      cases halt <;> rw [perform, hbind]
    rw [hperform, hx.current_of_error h]

/-- What a run does inside another frame does not matter. -/
protected theorem within (frame : FrameId) (run : Run α) : KeepsCurrent (within frame run) := by
  -- the frame is set back behind both ends, so nothing is asked of the run
  refine of_ends ?_ ?_
  · intro m a m' h
    unfold Machine.within at h
    split at h
    · cases h
      rfl
    · cases h
  · intro m halt m' h
    unfold Machine.within at h
    split at h
    · cases h
    · cases h
      rfl

/-- Failing leaves the machine as it is. -/
protected theorem fail (failure : Failure) : KeepsCurrent (fail failure : Run α) :=
  .throw _

protected theorem liftExcept (result : Except Failure α) : KeepsCurrent (liftExcept result) := by
  cases result with
  | ok a => exact .pure a
  | error failure => exact .fail failure

end KeepsCurrent

/-! ## The steps of the machine -/

section Steps

open KeepsCurrent

/-- Binding a name does not enter its frame. -/
theorem define_keepsCurrent (frame : FrameId) (name : String) (value : Value) :
    KeepsCurrent (define frame name value) :=
  .modify fun _ => rfl

theorem defineHere_keepsCurrent (name : String) (value : Value) :
    KeepsCurrent (defineHere name value) :=
  .modify fun _ => rfl

theorem lookupHere_keepsCurrent (name : String) : KeepsCurrent (lookupHere name) :=
  .bind .get fun _ => .bind .get fun _ => .pure _

theorem newFrame_keepsCurrent (parent : FrameId) : KeepsCurrent (newFrame parent) :=
  .modifyGet fun _ => rfl

theorem newSerial_keepsCurrent : KeepsCurrent newSerial :=
  .modifyGet fun _ => rfl

theorem newInstance_keepsCurrent : KeepsCurrent newInstance :=
  .modifyGet fun _ => rfl

theorem newClosure_keepsCurrent (fn : Closure) : KeepsCurrent (newClosure fn) :=
  newSerial_keepsCurrent.bind fun _ => .pure _

theorem writeField_keepsCurrent (id : InstanceId) (name : String) (value : Value) :
    KeepsCurrent (writeField id name value) :=
  .modify fun _ => rfl

/-- Frames are searched from the current one on, and not entered. -/
theorem readVariable_keepsCurrent (name : Token) : KeepsCurrent (readVariable name) := by
  refine (lookupHere_keepsCurrent _).bind fun found => ?_
  cases found with
  | some value => exact .pure value
  | none => exact .fail _

theorem writeVariable_keepsCurrent (name : Token) (value : Value) :
    KeepsCurrent (writeVariable name value) := by
  refine KeepsCurrent.get.bind fun m => ?_
  cases m.forest.owner? m.current name.lexeme with
  | some owner => exact define_keepsCurrent _ _ _
  | none => exact .fail _

/-- The frame of a bound method is made, and entered only when it is called. -/
theorem bind_keepsCurrent (method : Closure) (receiver : Value) :
    KeepsCurrent (bind method receiver) :=
  (newFrame_keepsCurrent _).bind fun _ => (define_keepsCurrent _ _ _).bind fun _ => .pure _

theorem readProperty_keepsCurrent (cls : Class) (id : InstanceId) (name : Token) :
    KeepsCurrent (readProperty cls id name) := by
  refine KeepsCurrent.get.bind fun m => ?_
  split
  · exact .pure _
  · split
    · exact (bind_keepsCurrent _ _).bind fun _ => newClosure_keepsCurrent _
    · exact .fail _

theorem readSuper_keepsCurrent (keyword method : Token) :
    KeepsCurrent (readSuper keyword method) := by
  refine (lookupHere_keepsCurrent _).bind fun parent => ?_
  split
  · refine (lookupHere_keepsCurrent _).bind fun receiver => ?_
    split
    · split
      · exact (bind_keepsCurrent _ _).bind fun _ => newClosure_keepsCurrent _
      · exact .fail _
    · exact .fail _
  · exact .fail _

/-- Functions of the host run outside of all frames. -/
theorem callHost_keepsCurrent (fn : HostFunction) (args : List Value) :
    KeepsCurrent (callHost fn args) := by
  refine KeepsCurrent.get.bind fun m => ?_
  split
  · split
    · exact .pure _
    · exact .fail _
  · exact .pure _

/-- Printing keeps the frame also when the line does not fit into the sink. -/
theorem printLine_keepsCurrent (text : String) : KeepsCurrent (printLine text) := by
  refine of_ends ?_ ?_
  · intro m a m' h
    simp only [printLine] at h
    split at h
    · cases h
      rfl
    · cases h
  · intro m halt m' h
    simp only [printLine] at h
    split at h
    · cases h
    · cases h
      rfl

theorem flush_keepsCurrent : KeepsCurrent flush := by
  refine KeepsCurrent.get.bind fun m => ?_
  split
  · exact .fail _
  · exact .pure _

/-- The parameters are bound in the frame of the call, one after the other. -/
theorem bindParameters_keepsCurrent (frame : FrameId) (params : List Token) (args : List Value) :
    KeepsCurrent (bindParameters frame params args) := by
  unfold bindParameters
  induction params.zip args with
  | nil => exact .pure _
  | cons pair rest ih =>
    exact (define_keepsCurrent _ _ _).bind fun _ => ih

/-- Methods are closed over a frame that is not entered for it. -/
theorem declareClass_keepsCurrent (decl : ClassDecl) (parent : Option Class) :
    KeepsCurrent (declareClass decl parent) := by
  refine (defineHere_keepsCurrent _ _).bind fun _ => ?_
  cases parent with
  | some parent =>
    exact KeepsCurrent.get.bind fun _ => (newFrame_keepsCurrent _).bind fun _ =>
      (define_keepsCurrent _ _ _).bind fun _ => (KeepsCurrent.pure _).bind fun _ =>
      newSerial_keepsCurrent.bind fun _ => writeVariable_keepsCurrent _ _
  | none =>
    exact KeepsCurrent.get.bind fun _ => (KeepsCurrent.pure _).bind fun _ =>
      newSerial_keepsCurrent.bind fun _ => writeVariable_keepsCurrent _ _

end Steps

/-! ## The evaluator -/

/-- All seven functions of the evaluator keep the frame, with one bound. -/
structure KeepsCurrentAt (fuel : Nat) : Prop where
  evaluate : ∀ expr, KeepsCurrent (evaluate fuel expr)
  evaluateEach : ∀ exprs, KeepsCurrent (evaluateEach fuel exprs)
  call : ∀ callee paren args, KeepsCurrent (call fuel callee paren args)
  invoke : ∀ callee args, KeepsCurrent (invoke fuel callee args)
  execute : ∀ stmt, KeepsCurrent (execute fuel stmt)
  executeEach : ∀ stmts, KeepsCurrent (executeEach fuel stmts)
  repeatWhile : ∀ condition body, KeepsCurrent (repeatWhile fuel condition body)

namespace KeepsCurrentAt

/-- Without any bound left, a run ends before it does anything. -/
theorem zero : KeepsCurrentAt 0 where
  evaluate _ := .throw _
  evaluateEach _ := .throw _
  call _ _ _ := .throw _
  invoke _ _ := .throw _
  execute _ := .throw _
  executeEach _ := .throw _
  repeatWhile _ _ := .throw _

section Step

variable {fuel : Nat} (ih : KeepsCurrentAt fuel)
include ih

/-- Expressions keep the frame if everything with less fuel does. There is one case for each
kind. -/
theorem evaluate_succ (expr : Expr) : KeepsCurrent (Machine.evaluate (fuel + 1) expr) := by
  cases expr with
  | literal value => exact .pure _
  | grouping inner => exact ih.evaluate inner
  | unary op operand => exact (ih.evaluate operand).bind fun _ => .liftExcept _
  | binary left op right =>
    exact (ih.evaluate left).bind fun _ => (ih.evaluate right).bind fun _ => .liftExcept _
  | logical left op right =>
    refine (ih.evaluate left).bind fun _ => (KeepsCurrent.liftExcept _).bind fun short => ?_
    cases short with
    | true => exact .pure _
    | false => exact ih.evaluate right
  | «variable» name => exact readVariable_keepsCurrent name
  | assign name value =>
    exact (ih.evaluate value).bind fun _ => (writeVariable_keepsCurrent _ _).bind fun _ => .pure _
  | call callee paren args =>
    exact (ih.evaluate callee).bind fun _ => (ih.evaluateEach args).bind fun _ => ih.call _ _ _
  | get object name =>
    refine (ih.evaluate object).bind fun object => ?_
    cases object with
    | instanceOf cls id => exact readProperty_keepsCurrent _ _ _
    | _ => exact .fail _
  | set object name value =>
    refine (ih.evaluate object).bind fun object => ?_
    cases object with
    | instanceOf cls id =>
      exact (ih.evaluate value).bind fun _ => (writeField_keepsCurrent _ _ _).bind fun _ => .pure _
    | _ => exact .fail _
  | this keyword => exact readVariable_keepsCurrent keyword
  | super keyword method => exact readSuper_keepsCurrent keyword method

theorem evaluateEach_succ (exprs : List Expr) :
    KeepsCurrent (Machine.evaluateEach (fuel + 1) exprs) := by
  cases exprs with
  | nil => exact .pure _
  | cons expr rest =>
    exact (ih.evaluate expr).bind fun _ => (ih.evaluateEach rest).bind fun _ => .pure _

/-- A call enters a frame in the run of its callee, which sets the old one back. -/
theorem call_succ (callee : Value) (paren : Token) (args : List Value) :
    KeepsCurrent (Machine.call (fuel + 1) callee paren args) := by
  unfold Machine.call Followed.call
  split
  · exact .fail _
  · split
    · exact ih.invoke _ _
    · exact .fail _

/-- A call runs its body in a frame of its own, so the body needs no hypothesis. -/
theorem invoke_succ (callee : Callee) (args : List Value) :
    KeepsCurrent (Machine.invoke (fuel + 1) callee args) := by
  cases callee with
  | host fn => exact callHost_keepsCurrent fn args
  | function fn =>
    refine (newFrame_keepsCurrent _).bind fun frame =>
      (bindParameters_keepsCurrent _ _ _).bind fun _ =>
      (KeepsCurrent.within _ _).bind fun completion => ?_
    -- an initializer returns its receiver, any other function what it completed with
    split
    · exact KeepsCurrent.get.bind fun _ => .pure _
    · cases completion with
      | normal => exact .pure _
      | returned value => exact .pure _
  | classRef cls =>
    refine newInstance_keepsCurrent.bind fun id => ?_
    split
    · exact (bind_keepsCurrent _ _).bind fun _ => (ih.invoke _ _).bind fun _ => .pure _
    · exact .pure _

/-- A block enters its frame and leaves it again, also by a failure or a `return`. -/
theorem execute_succ (stmt : Stmt) : KeepsCurrent (Machine.execute (fuel + 1) stmt) := by
  cases stmt with
  | expression expr => exact (ih.evaluate expr).bind fun _ => .pure _
  | print expr =>
    exact (ih.evaluate expr).bind fun _ => (printLine_keepsCurrent _).bind fun _ => .pure _
  | varDecl name initializer =>
    cases initializer with
    | some expr =>
      exact (ih.evaluate expr).bind fun _ => (defineHere_keepsCurrent _ _).bind fun _ => .pure _
    | none =>
      exact (KeepsCurrent.pure _).bind fun _ => (defineHere_keepsCurrent _ _).bind fun _ => .pure _
  | block body =>
    -- the frame of the block is entered and left by `within`, whatever the body does
    exact KeepsCurrent.get.bind fun _ => (newFrame_keepsCurrent _).bind fun _ => .within _ _
  | ifElse condition thenBranch elseBranch =>
    refine (ih.evaluate condition).bind fun value => ?_
    split
    · exact ih.execute thenBranch
    · cases elseBranch with
      | some elseBranch => exact ih.execute elseBranch
      | none => exact .pure _
  | whileLoop condition body => exact ih.repeatWhile condition body
  | funDecl decl =>
    exact KeepsCurrent.get.bind fun _ => (newClosure_keepsCurrent _).bind fun _ =>
      (defineHere_keepsCurrent _ _).bind fun _ => .pure _
  | returnStmt keyword value =>
    cases value with
    | some expr => exact (ih.evaluate expr).bind fun _ => .pure _
    | none => exact .pure _
  | classDecl decl =>
    obtain ⟨name, superclass, methods⟩ := decl
    cases superclass with
    | none => exact (declareClass_keepsCurrent _ _).bind fun _ => .pure _
    | some superclass =>
      refine (ih.evaluate superclass).bind fun value => ?_
      cases value with
      | classRef parent => exact (declareClass_keepsCurrent _ _).bind fun _ => .pure _
      | _ => exact .fail _

/-- Statements in a row keep the frame one after the other. -/
theorem executeEach_succ (stmts : List Stmt) :
    KeepsCurrent (Machine.executeEach (fuel + 1) stmts) := by
  cases stmts with
  | nil => exact .pure _
  | cons stmt rest =>
    refine (ih.execute stmt).bind fun completion => ?_
    cases completion with
    | normal => exact ih.executeEach rest
    | returned value => exact .pure _

/-- So do the rounds of a loop, also when one of them returns. -/
theorem repeatWhile_succ (condition : Expr) (body : Stmt) :
    KeepsCurrent (Machine.repeatWhile (fuel + 1) condition body) := by
  refine (ih.evaluate condition).bind fun value => ?_
  split
  · refine (ih.execute body).bind fun completion => ?_
    cases completion with
    | normal => exact ih.repeatWhile condition body
    | returned value => exact .pure _
  · exact .pure _

/-- Together they keep it with one unit more of the bound. -/
theorem succ : KeepsCurrentAt (fuel + 1) where
  evaluate := ih.evaluate_succ
  evaluateEach := ih.evaluateEach_succ
  call := ih.call_succ
  invoke := ih.invoke_succ
  execute := ih.execute_succ
  executeEach := ih.executeEach_succ
  repeatWhile := ih.repeatWhile_succ

end Step

/-- They keep it with any bound. -/
protected theorem all (fuel : Nat) : KeepsCurrentAt fuel := by
  induction fuel with
  | zero => exact zero
  | succ fuel ih => exact ih.succ

end KeepsCurrentAt

/-- Statements that are run in another frame set the old one back. -/
theorem executeIn_keepsCurrent (fuel : Nat) (frame : FrameId) (stmts : List Stmt) :
    KeepsCurrent (executeIn fuel frame stmts) :=
  .within _ _

/-- A program keeps the frame. -/
theorem runProgram_keepsCurrent (fuel : Nat) (stmts : List Stmt) :
    KeepsCurrent (runProgram fuel stmts) := by
  induction stmts with
  | nil => exact flush_keepsCurrent
  | cons stmt rest ih => exact ((KeepsCurrentAt.all fuel).execute stmt).bind fun _ => ih

/-! ## Sessions -/

theorem serve_current (m : Machine) (fuel : Nat) (request : Request) :
    (m.serve fuel request).current = m.current := by
  have all := KeepsCurrentAt.all fuel
  cases request with
  | interpret stmts => exact runProgram_keepsCurrent fuel stmts m
  | execute stmt => exact all.execute stmt m
  | executeIn frame stmts => exact executeIn_keepsCurrent fuel frame stmts m
  | evaluate expr => exact all.evaluate expr m
  | invoke callee args => exact all.invoke callee args m
  | frameInside parent => exact newFrame_keepsCurrent parent m
  | define frame name value => exact define_keepsCurrent frame name value m
  | defineHost name arity body => rfl
  | takeOutput => rfl

/-- So does a session, by induction on its requests. -/
theorem serveAll_current (m : Machine) (session : List (Nat × Request)) :
    (m.serveAll session).current = m.current := by
  induction session generalizing m with
  | nil => rfl
  | cons step rest ih =>
    -- the rest of the session starts from what the first request has left
    have hstep : (m.serveAll (step :: rest)) = (m.serve step.1 step.2).serveAll rest := rfl
    rw [hstep, ih, serve_current]

/-- **The current frame is restored.** Whatever the machine is and whatever it is
given to do, it is in the same frame afterwards, however that ended. A machine
that has been booted is therefore in the global frame after every session. -/
theorem current_after_work :
    (∀ fuel m stmt, (perform (execute fuel stmt) m).2.current = m.current) ∧
    (∀ fuel m frame stmts, (perform (executeIn fuel frame stmts) m).2.current = m.current) ∧
    (∀ fuel m expr, (perform (evaluate fuel expr) m).2.current = m.current) ∧
    (∀ fuel m stmts, (perform (runProgram fuel stmts) m).2.current = m.current) ∧
    (∀ fuel m callee args, (perform (invoke fuel callee args) m).2.current = m.current) ∧
    ∀ clock sink session, ((boot clock sink).serveAll session).current = globals := by
  refine ⟨fun fuel m stmt => ?_, fun fuel m frame stmts => ?_, fun fuel m expr => ?_,
    fun fuel m stmts => ?_, fun fuel m callee args => ?_, fun clock sink session => ?_⟩
  · exact (KeepsCurrentAt.all fuel).execute stmt m
  · exact executeIn_keepsCurrent fuel frame stmts m
  · exact (KeepsCurrentAt.all fuel).evaluate expr m
  · exact runProgram_keepsCurrent fuel stmts m
  · exact (KeepsCurrentAt.all fuel).invoke callee args m
  · exact serveAll_current _ session

end Lox.Machine
