/-
`Lox.Proofs.Machine.Fuel` -- the bound on the depth does not matter once it is enough.

A run either uses up its bound, or it ends as it would with any larger one: with the same
result or failure, and the same machine (`Settles`). So a program that comes to an end does
so in one way, and what it prints is a matter of the program alone.

The induction is on the smaller bound. Each function of the evaluator hands one less to
the functions it calls, so the laws of `Settles` follow the shape of the evaluator.
-/
import Lox.Proofs.Machine.Run

set_option autoImplicit false

namespace Lox.Machine

variable {α β : Type}

/-- The first run uses up its bound, or the second one ends in the same way. -/
def Settles (x y : Run α) : Prop :=
  ∀ m, (∃ m', x m = .error .outOfFuel m') ∨ y m = x m

namespace Settles

variable {x y : Run α} {f g : α → Run β}

protected theorem refl (x : Run α) : Settles x x :=
  fun _ => .inr rfl

/-- A run that uses up its bound settles to anything. -/
theorem outOfFuel : Settles (throw .outOfFuel) y :=
  fun m => .inl ⟨m, rfl⟩

/-- Runs after one another settle if both do, the first one deciding for both when it halts. -/
protected theorem bind (hx : Settles x y) (hf : ∀ a, Settles (f a) (g a)) :
    Settles (x >>= f) (y >>= g) := by
  intro m
  rcases hx m with ⟨m', hout⟩ | hsame
  · exact .inl ⟨m', bind_of_error hout⟩
  cases hrun : x m with
  | ok a m' =>
    rw [hrun] at hsame
    rw [bind_of_ok hrun, bind_of_ok hsame]
    exact hf a m'
  | error halt m' =>
    rw [hrun] at hsame
    rw [bind_of_error hrun, bind_of_error hsame]
    exact .inr rfl

/-- Runs that begin in the same way. -/
theorem after (hf : ∀ a, Settles (f a) (g a)) : Settles (x >>= f) (x >>= g) :=
  Settles.bind (.refl x) hf

/-- A run settles in another frame as in the current one. -/
protected theorem within (frame : FrameId) (hx : Settles x y) :
    Settles (within frame x) (within frame y) := by
  intro m
  rcases hx { m with current := frame } with ⟨m', hout⟩ | hsame
  · refine .inl ⟨{ m' with current := m.current }, ?_⟩
    rw [Machine.within, hout]
  · refine .inr ?_
    rw [Machine.within, hsame, Machine.within]

/-- A run that has come to its end does so with the larger bound. -/
theorem of_ok (hx : Settles x y) {m m' : Machine} {a : α} (h : x m = .ok a m') :
    y m = .ok a m' := by
  rcases hx m with ⟨_, hout⟩ | hsame
  · rw [h] at hout
    cases hout
  · rw [hsame, h]

/-- One that has failed fails in the same way. -/
theorem of_failed (hx : Settles x y) {m m' : Machine} {failure : Failure}
    (h : x m = .error (.failed failure) m') : y m = .error (.failed failure) m' := by
  rcases hx m with ⟨_, hout⟩ | hsame
  · rw [h] at hout
    cases hout
  · rw [hsame, h]

end Settles

/-- The functions of the evaluator end as with the smaller bound, if that is enough. -/
structure SettlesAt (fuel more : Nat) : Prop where
  evaluate : ∀ expr, Settles (evaluate fuel expr) (evaluate more expr)
  evaluateEach : ∀ exprs, Settles (evaluateEach fuel exprs) (evaluateEach more exprs)
  call : ∀ callee paren args, Settles (call fuel callee paren args) (call more callee paren args)
  invoke : ∀ callee args, Settles (invoke fuel callee args) (invoke more callee args)
  execute : ∀ stmt, Settles (execute fuel stmt) (execute more stmt)
  executeEach : ∀ stmts, Settles (executeEach fuel stmts) (executeEach more stmts)
  repeatWhile : ∀ condition body,
    Settles (repeatWhile fuel condition body) (repeatWhile more condition body)

namespace SettlesAt

/-- Without fuel the bound is used up. -/
theorem zero (more : Nat) : SettlesAt 0 more where
  evaluate _ := .outOfFuel
  evaluateEach _ := .outOfFuel
  call _ _ _ := .outOfFuel
  invoke _ _ := .outOfFuel
  execute _ := .outOfFuel
  executeEach _ := .outOfFuel
  repeatWhile _ _ := .outOfFuel

section Step

variable {fuel more : Nat} (ih : SettlesAt fuel more)
include ih

/-- Expressions settle if everything with less fuel does. -/
theorem evaluate_succ (expr : Expr) :
    Settles (Machine.evaluate (fuel + 1) expr) (Machine.evaluate (more + 1) expr) := by
  cases expr with
  | literal value => exact .refl _
  | grouping inner => exact ih.evaluate inner
  | unary op operand => exact (ih.evaluate operand).bind fun _ => .refl _
  | binary left op right =>
    exact (ih.evaluate left).bind fun _ => (ih.evaluate right).bind fun _ => .refl _
  | logical left op right =>
    refine (ih.evaluate left).bind fun _ => .after fun short => ?_
    cases short with
    | true => exact .refl _
    | false => exact ih.evaluate right
  | «variable» name => exact .refl _
  | assign name value => exact (ih.evaluate value).bind fun _ => .refl _
  | call callee paren args =>
    exact (ih.evaluate callee).bind fun _ => (ih.evaluateEach args).bind fun _ => ih.call _ _ _
  | get object name => exact (ih.evaluate object).bind fun _ => .refl _
  | set object name value =>
    refine (ih.evaluate object).bind fun target => ?_
    cases target with
    | instanceOf cls id => exact (ih.evaluate value).bind fun _ => .refl _
    | _ => exact .refl _
  | this keyword => exact .refl _
  | super keyword method => exact .refl _

theorem evaluateEach_succ (exprs : List Expr) :
    Settles (Machine.evaluateEach (fuel + 1) exprs) (Machine.evaluateEach (more + 1) exprs) := by
  cases exprs with
  | nil => exact .refl _
  | cons expr rest =>
    exact (ih.evaluate expr).bind fun _ => (ih.evaluateEach rest).bind fun _ => .refl _

theorem call_succ (callee : Value) (paren : Token) (args : List Value) :
    Settles (Machine.call (fuel + 1) callee paren args)
      (Machine.call (more + 1) callee paren args) := by
  -- the checks before a call do not depend on the fuel
  unfold Machine.call Followed.call
  cases Callee.ofValue? callee with
  | none => exact .refl _
  | some callee =>
    by_cases harity : args.length = callee.arity
    · simp only [if_pos harity]
      exact ih.invoke callee args
    · simp only [if_neg harity]
      exact .refl _

theorem invoke_succ (callee : Callee) (args : List Value) :
    Settles (Machine.invoke (fuel + 1) callee args) (Machine.invoke (more + 1) callee args) := by
  cases callee with
  | host fn => exact .refl _
  | function fn =>
    exact .after fun frame => .after fun _ =>
      ((ih.executeEach fn.decl.body).within frame).bind fun _ => .refl _
  | classRef cls =>
    refine .after fun id => ?_
    cases cls.findMethod? "init" with
    | some init => exact .after fun _ => (ih.invoke _ _).bind fun _ => .refl _
    | none => exact .refl _

theorem execute_succ (stmt : Stmt) :
    Settles (Machine.execute (fuel + 1) stmt) (Machine.execute (more + 1) stmt) := by
  cases stmt with
  | expression expr => exact (ih.evaluate expr).bind fun _ => .refl _
  | print expr => exact (ih.evaluate expr).bind fun _ => .refl _
  | varDecl name initializer =>
    cases initializer with
    | some expr => exact (ih.evaluate expr).bind fun _ => .refl _
    | none => exact .refl _
  | block body => exact .after fun _ => .after fun frame => (ih.executeEach body).within frame
  | ifElse condition thenBranch elseBranch =>
    refine (ih.evaluate condition).bind fun value => ?_
    split
    · exact ih.execute thenBranch
    · cases elseBranch with
      | some elseBranch => exact ih.execute elseBranch
      | none => exact .refl _
  | whileLoop condition body => exact ih.repeatWhile condition body
  | funDecl decl => exact .refl _
  | returnStmt keyword value =>
    cases value with
    | some expr => exact (ih.evaluate expr).bind fun _ => .refl _
    | none => exact .refl _
  | classDecl decl =>
    obtain ⟨name, superclass, methods⟩ := decl
    cases superclass with
    | none => exact .refl _
    | some superclass => exact (ih.evaluate superclass).bind fun _ => .refl _

theorem executeEach_succ (stmts : List Stmt) :
    Settles (Machine.executeEach (fuel + 1) stmts) (Machine.executeEach (more + 1) stmts) := by
  cases stmts with
  | nil => exact .refl _
  | cons stmt rest =>
    refine (ih.execute stmt).bind fun completion => ?_
    cases completion with
    | normal => exact ih.executeEach rest
    | returned value => exact .refl _

/-- So do loops, where each round has one unit less. -/
theorem repeatWhile_succ (condition : Expr) (body : Stmt) :
    Settles (Machine.repeatWhile (fuel + 1) condition body)
      (Machine.repeatWhile (more + 1) condition body) := by
  refine (ih.evaluate condition).bind fun value => ?_
  split
  · refine (ih.execute body).bind fun completion => ?_
    cases completion with
    | normal => exact ih.repeatWhile condition body
    | returned value => exact .refl _
  · exact .refl _

theorem succ : SettlesAt (fuel + 1) (more + 1) where
  evaluate := ih.evaluate_succ
  evaluateEach := ih.evaluateEach_succ
  call := ih.call_succ
  invoke := ih.invoke_succ
  execute := ih.execute_succ
  executeEach := ih.executeEach_succ
  repeatWhile := ih.repeatWhile_succ

end Step

/-- So the evaluator ends as with any smaller bound that is enough. -/
theorem of_le {fuel more : Nat} (h : fuel ≤ more) : SettlesAt fuel more := by
  induction fuel generalizing more with
  | zero => exact zero more
  | succ fuel ih =>
    obtain ⟨more, rfl⟩ : ∃ k, more = k + 1 := ⟨more - 1, by omega⟩
    exact (ih (by omega)).succ

end SettlesAt

/-- A program that comes to an end does so in one way. -/
theorem runProgram_settles {fuel more : Nat} (h : fuel ≤ more) (stmts : List Stmt) :
    Settles (runProgram fuel stmts) (runProgram more stmts) := by
  induction stmts with
  | nil => exact .refl flush
  | cons stmt rest ih => exact ((SettlesAt.of_le h).execute stmt).bind fun _ => ih

end Lox.Machine
