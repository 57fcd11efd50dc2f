/-
`Lox.Proofs.Machine.Followed` -- to follow a run changes nothing.

The functions that run trees are written for any state that a machine is part of. If what
they are handed does to the machine what its own steps do, and nothing else is done to it
(`Transparent`), then a run that is followed ends in the same way as one that is not, and
with the same machine (`Erases`).
-/
import Lox.Machine.Session

set_option autoImplicit false

namespace Lox.Machine

variable {S : Type} {α β : Type}

/-- How a run ended, and with which machine, without what came along. -/
def erased (machine : S → Machine) : EStateM.Result Halt S α → EStateM.Result Halt Machine α
  | .ok a s => .ok a (machine s)
  | .error halt s => .error halt (machine s)

/-- The first run is the second one, followed. -/
def Erases (machine : S → Machine) (x : EStateM Halt S α) (y : Run α) : Prop :=
  ∀ s, erased machine (x s) = y (machine s)

namespace Erases

variable {machine : S → Machine} {x : EStateM Halt S α} {y : Run α} {f : α → EStateM Halt S β}
  {g : α → Run β}

/-- Returning something is the same on both sides. -/
protected theorem pure (a : α) : Erases machine (pure a) (pure a) :=
  fun _ => rfl

protected theorem throw (halt : Halt) :
    Erases machine (throw halt : EStateM Halt S α) (throw halt) :=
  fun _ => rfl

/-- Runs after one another are followed if both are. -/
protected theorem bind (hx : Erases machine x y) (hf : ∀ a, Erases machine (f a) (g a)) :
    Erases machine (x >>= f) (y >>= g) := by
  intro s
  have hfirst := hx s
  show erased machine (EStateM.bind x f s) = EStateM.bind y g (machine s)
  unfold EStateM.bind
  cases hrun : x s with
  | ok a s' =>
    rw [hrun] at hfirst
    rw [← hfirst]
    exact hf a s'
  | error halt s' =>
    rw [hrun] at hfirst
    rw [← hfirst]
    rfl

/-- A run that goes on with a part of the machine. -/
theorem get {f : S → EStateM Halt S β} {g : Machine → Run β}
    (hf : ∀ s, Erases machine (f s) (g (machine s))) :
    Erases machine ((MonadState.get : EStateM Halt S S) >>= f) (MonadState.get >>= g) :=
  fun s => hf s s

end Erases

section Followed

variable {machine : S → Machine} {step : {α : Type} → Run α → EStateM Halt S α}
  {within : {α : Type} → FrameId → EStateM Halt S α → EStateM Halt S α}
  {tell : {α : Type} → Event → EStateM Halt S α → EStateM Halt S α}
  {sight : {α : Type} → Token → EStateM Halt S α → EStateM Halt S α}

/-- What is done with a state does to the machine in it what is meant, and nothing else. -/
structure Transparent (machine : S → Machine) (step : {α : Type} → Run α → EStateM Halt S α)
    (within : {α : Type} → FrameId → EStateM Halt S α → EStateM Halt S α)
    (tell : {α : Type} → Event → EStateM Halt S α → EStateM Halt S α)
    (sight : {α : Type} → Token → EStateM Halt S α → EStateM Halt S α) : Prop where
  step : ∀ {α : Type} (y : Run α), Erases machine (step y) y
  within : ∀ {α : Type} {x : EStateM Halt S α} {y : Run α} (frame : FrameId),
    Erases machine x y → Erases machine (within frame x) (Machine.within frame y)
  tell : ∀ {α : Type} {x : EStateM Halt S α} {y : Run α} (event : Event),
    Erases machine x y → Erases machine (tell event x) y
  sight : ∀ {α : Type} {x : EStateM Halt S α} {y : Run α} (name : Token),
    Erases machine x y → Erases machine (sight name x) y

/-- The functions of the evaluator, followed, are those that are not, with one bound on the
depth. -/
structure ErasesAt (machine : S → Machine) (step : {α : Type} → Run α → EStateM Halt S α)
    (within : {α : Type} → FrameId → EStateM Halt S α → EStateM Halt S α)
    (tell : {α : Type} → Event → EStateM Halt S α → EStateM Halt S α)
    (sight : {α : Type} → Token → EStateM Halt S α → EStateM Halt S α) (fuel : Nat) :
    Prop where
  evaluate : ∀ expr, Erases machine
    (Followed.evaluate machine step within tell sight fuel expr) (evaluate fuel expr)
  evaluateEach : ∀ exprs, Erases machine
    (Followed.evaluateEach machine step within tell sight fuel exprs) (evaluateEach fuel exprs)
  call : ∀ callee paren args, Erases machine
    (Followed.call machine step within tell sight fuel callee paren args)
    (call fuel callee paren args)
  invoke : ∀ callee args, Erases machine
    (Followed.invoke machine step within tell sight fuel callee args) (invoke fuel callee args)
  execute : ∀ stmt, Erases machine
    (Followed.execute machine step within tell sight fuel stmt) (execute fuel stmt)
  executeEach : ∀ stmts, Erases machine
    (Followed.executeEach machine step within tell sight fuel stmts) (executeEach fuel stmts)
  repeatWhile : ∀ condition body, Erases machine
    (Followed.repeatWhile machine step within tell sight fuel condition body)
    (repeatWhile fuel condition body)

namespace ErasesAt

/-- Without fuel both sides halt. -/
theorem zero : ErasesAt machine step within tell sight 0 where
  evaluate _ := .throw _
  evaluateEach _ := .throw _
  call _ _ _ := .throw _
  invoke _ _ := .throw _
  execute _ := .throw _
  executeEach _ := .throw _
  repeatWhile _ _ := .throw _

section Step

variable {fuel : Nat} (h : Transparent machine step within tell sight)
  (ih : ErasesAt machine step within tell sight fuel)
include h ih

/-- Expressions are followed if everything with less fuel is, because what listens changes
nothing. -/
theorem evaluate_succ (expr : Expr) :
    Erases machine (Followed.evaluate machine step within tell sight (fuel + 1) expr)
      (Machine.evaluate (fuel + 1) expr) := by
  refine h.tell _ ?_
  cases expr with
  | literal value => exact .pure _
  | grouping inner => exact ih.evaluate inner
  | unary op operand => exact (ih.evaluate operand).bind fun _ => h.step _
  | binary left op right =>
    exact (ih.evaluate left).bind fun _ => (ih.evaluate right).bind fun _ => h.step _
  | logical left op right =>
    refine (ih.evaluate left).bind fun _ => (h.step _).bind fun short => ?_
    cases short with
    | true => exact .pure _
    | false => exact ih.evaluate right
  | «variable» name => exact h.sight name (h.step _)
  | assign name value =>
    exact (ih.evaluate value).bind fun _ => h.sight name ((h.step _).bind fun _ => .pure _)
  | call callee paren args =>
    exact (ih.evaluate callee).bind fun _ => (ih.evaluateEach args).bind fun _ => ih.call _ _ _
  | get object name =>
    refine (ih.evaluate object).bind fun object => ?_
    cases object with
    | instanceOf cls id => exact h.tell _ (h.step _)
    | _ => exact h.step _
  | set object name value =>
    refine (ih.evaluate object).bind fun object => ?_
    cases object with
    | instanceOf cls id =>
      exact (ih.evaluate value).bind fun _ => (h.step _).bind fun _ => .pure _
    | _ => exact h.step _
  | this keyword => exact h.step _
  | super keyword method => exact h.tell _ (h.step _)

omit h in

theorem evaluateEach_succ (exprs : List Expr) :
    Erases machine (Followed.evaluateEach machine step within tell sight (fuel + 1) exprs)
      (Machine.evaluateEach (fuel + 1) exprs) := by
  cases exprs with
  | nil => exact .pure _
  | cons expr rest =>
    exact (ih.evaluate expr).bind fun _ => (ih.evaluateEach rest).bind fun _ => .pure _

/-- So are calls, whose checks are made on the machine alone. -/
theorem call_succ (callee : Value) (paren : Token) (args : List Value) :
    Erases machine (Followed.call machine step within tell sight (fuel + 1) callee paren args)
      (Machine.call (fuel + 1) callee paren args) := by
  unfold Machine.call Followed.call
  cases Callee.ofValue? callee with
  | none => exact h.step _
  | some callee =>
    by_cases harity : args.length = callee.arity
    · simp only [if_pos harity]
      exact ih.invoke callee args
    -- the check of the arguments is a step of the machine, and fails in both
    · simp only [if_neg harity]
      exact h.step _

/-- So are callees. The frames that they make are the same. -/
theorem invoke_succ (callee : Callee) (args : List Value) :
    Erases machine (Followed.invoke machine step within tell sight (fuel + 1) callee args)
      (Machine.invoke (fuel + 1) callee args) := by
  refine h.tell _ ?_
  cases callee with
  | host fn => exact h.step _
  | function fn =>
    refine h.tell _ ((h.step _).bind fun frame => (h.step _).bind fun _ =>
      (h.within frame (ih.executeEach fn.decl.body)).bind fun completion => ?_)
    split
    -- in an initializer the result is looked up in the machine, which is the same in both
    · exact .get fun _ => .pure _
    · cases completion with
      | normal => exact .pure _
      | returned value => exact .pure _
  | classRef cls =>
    refine (h.step _).bind fun id => ?_
    cases cls.findMethod? "init" with
    | some init =>
      exact h.tell _ ((h.step _).bind fun _ => (ih.invoke _ _).bind fun _ => .pure _)
    | none => exact .pure _

theorem execute_succ (stmt : Stmt) :
    Erases machine (Followed.execute machine step within tell sight (fuel + 1) stmt)
      (Machine.execute (fuel + 1) stmt) := by
  refine h.tell _ ?_
  cases stmt with
  | expression expr => exact (ih.evaluate expr).bind fun _ => .pure _
  | print expr =>
    exact (ih.evaluate expr).bind fun _ => (h.step _).bind fun _ => .pure _
  | varDecl name initializer =>
    cases initializer with
    | some expr =>
      exact (ih.evaluate expr).bind fun _ => (h.step _).bind fun _ => .pure _
    | none => exact (Erases.pure _).bind fun _ => (h.step _).bind fun _ => .pure _
  | block body =>
    exact .get fun _ => h.tell _ ((h.step _).bind fun frame =>
      h.within frame (ih.executeEach body))
  | ifElse condition thenBranch elseBranch =>
    refine (ih.evaluate condition).bind fun value => ?_
    split
    · exact ih.execute thenBranch
    · cases elseBranch with
      | some elseBranch => exact ih.execute elseBranch
      | none => exact .pure _
  | whileLoop condition body => exact ih.repeatWhile condition body
  | funDecl decl =>
    exact .get fun _ => (h.step _).bind fun _ => (h.step _).bind fun _ => .pure _
  | returnStmt keyword value =>
    cases value with
    | some expr => exact (ih.evaluate expr).bind fun _ => .pure _
    | none => exact .pure _
  | classDecl decl =>
    obtain ⟨name, superclass, methods⟩ := decl
    cases superclass with
    | none => exact h.tell _ ((h.step _).bind fun _ => .pure _)
    | some superclass =>
      refine (ih.evaluate superclass).bind fun value => ?_
      cases value with
      | classRef parent => exact h.tell _ ((h.step _).bind fun _ => .pure _)
      | _ => exact h.step _

omit h in

theorem executeEach_succ (stmts : List Stmt) :
    Erases machine (Followed.executeEach machine step within tell sight (fuel + 1) stmts)
      (Machine.executeEach (fuel + 1) stmts) := by
  cases stmts with
  | nil => exact .pure _
  | cons stmt rest =>
    refine (ih.execute stmt).bind fun completion => ?_
    cases completion with
    | normal => exact ih.executeEach rest
    | returned value => exact .pure _

omit h in

theorem repeatWhile_succ (condition : Expr) (body : Stmt) :
    Erases machine (Followed.repeatWhile machine step within tell sight (fuel + 1) condition body)
      (Machine.repeatWhile (fuel + 1) condition body) := by
  refine (ih.evaluate condition).bind fun value => ?_
  split
  · refine (ih.execute body).bind fun completion => ?_
    cases completion with
    | normal => exact ih.repeatWhile condition body
    | returned value => exact .pure _
  · exact .pure _

/-- Together they are followed with one unit more of the bound. -/
theorem succ : ErasesAt machine step within tell sight (fuel + 1) where
  evaluate := ih.evaluate_succ h
  evaluateEach := ih.evaluateEach_succ
  call := ih.call_succ h
  invoke := ih.invoke_succ h
  execute := ih.execute_succ h
  executeEach := ih.executeEach_succ
  repeatWhile := ih.repeatWhile_succ

end Step

end ErasesAt

/-- A run that is followed is the run itself, at every bound. -/
theorem Transparent.erasesAt (h : Transparent machine step within tell sight) (fuel : Nat) :
    ErasesAt machine step within tell sight fuel := by
  induction fuel with
  | zero => exact .zero
  | succ fuel ih => exact ih.succ h

/-- A program that is followed is the same program. -/
theorem Transparent.runProgram_erases (h : Transparent machine step within tell sight)
    (fuel : Nat) (stmts : List Stmt) :
    Erases machine (Followed.runProgram machine step within tell sight fuel stmts)
      (runProgram fuel stmts) := by
  induction stmts with
  | nil => exact h.step flush
  | cons stmt rest ih => exact ((h.erasesAt fuel).execute stmt).bind fun _ => ih

end Followed

end Lox.Machine
