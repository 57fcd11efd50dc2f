/-
`Lox.Proofs.Machine.Return` -- a `return` ends the call around it, and nothing else.

A completion travels outwards through blocks, branches and loops, and a call takes
it up. So whether a statement can return depends on its tree alone: on whether a
`return` stands in it outside the bodies of the functions declared there
(`Stmt.HasReturn`). What those bodies do when they are called is of no account,
and the induction on the bound never looks into a call.

The grammar counts the bodies it is in and complains about a `return` that is in
none. A program without complaints therefore has no such statement at the top.
-/
import Lox.Proofs.Grammar.Language
import Lox.Proofs.Machine.Run

set_option autoImplicit false

namespace Lox

/-! ## Statements with a `return` -/

mutual

/-- A `return` stands in the statement, outside the bodies of functions in it. -/
def Stmt.HasReturn : Stmt → Prop
  | .returnStmt _ _ => True
  | .block body => Stmt.AnyHasReturn body
  | .ifElse _ thenBranch none => thenBranch.HasReturn
  | .ifElse _ thenBranch (some elseBranch) => thenBranch.HasReturn ∨ elseBranch.HasReturn
  | .whileLoop _ body => body.HasReturn
  | .expression _ | .print _ | .varDecl _ _ | .funDecl _ | .classDecl _ => False

/-- A `return` stands in one of the statements. -/
def Stmt.AnyHasReturn : List Stmt → Prop
  | [] => False
  | stmt :: rest => stmt.HasReturn ∨ Stmt.AnyHasReturn rest

end

mutual

/-- Where no function is around it, a `return` goes beyond the limits. -/
theorem Stmt.Proper.not_hasReturn {stmt : Stmt} (h : stmt.Proper false) : ¬ stmt.HasReturn := by
  match stmt with
  | .returnStmt _ _ => exact absurd h.1 Bool.false_ne_true
  | .block body => exact Stmt.AllProper.not_anyHasReturn h
  | .ifElse _ thenBranch none =>
    show ¬ thenBranch.HasReturn
    exact Stmt.Proper.not_hasReturn h.2
  | .ifElse _ thenBranch (some elseBranch) =>
    rintro (hthen | helse)
    · exact Stmt.Proper.not_hasReturn h.2.1 hthen
    · exact Stmt.Proper.not_hasReturn h.2.2 helse
  | .whileLoop _ body =>
    show ¬ body.HasReturn
    exact Stmt.Proper.not_hasReturn h.2
  | .expression _ | .print _ | .varDecl _ _ | .funDecl _ | .classDecl _ => exact not_false

/-- Proper statements outside of functions have no `return` outside of functions. -/
theorem Stmt.AllProper.not_anyHasReturn {stmts : List Stmt} (h : Stmt.AllProper false stmts) :
    ¬ Stmt.AnyHasReturn stmts := by
  match stmts with
  | [] => exact not_false
  | stmt :: rest =>
    rintro (hstmt | hrest)
    · exact Stmt.Proper.not_hasReturn h.1 hstmt
    · exact Stmt.AllProper.not_anyHasReturn h.2 hrest

end

/-- Each one of proper statements is proper. -/
theorem Stmt.AllProper.of_mem {inside : Bool} {stmts : List Stmt} {stmt : Stmt}
    (h : Stmt.AllProper inside stmts) (hmem : stmt ∈ stmts) : stmt.Proper inside := by
  induction stmts with
  | nil => cases hmem
  | cons first rest ih =>
    rcases List.mem_cons.mp hmem with rfl | hmem
    · exact h.1
    · exact ih h.2 hmem

/-! ## Statements that do not return -/

namespace Machine

/-- If the run comes to an end of its own, it has not returned. -/
def FallsThrough (run : Run Completion) : Prop :=
  ∀ m completion m', run m = .ok completion m' → completion = .normal

namespace FallsThrough

variable {α : Type}

protected theorem pure : FallsThrough (pure .normal) := by
  intro m completion m' h
  cases h
  rfl

/-- A halt is no end of a run's own. -/
protected theorem throw (halt : Halt) : FallsThrough (throw halt) := by
  intro m completion m' h
  cases h

/-- Of a run after another one the second decides. -/
protected theorem bind {x : Run α} {f : α → Run Completion} (hf : ∀ a, FallsThrough (f a)) :
    FallsThrough (x >>= f) := by
  intro m completion m'' h
  obtain ⟨a, m', -, hrest⟩ := bind_eq_ok h
  exact hf a m' completion m'' hrest

/-- Behind a run that falls through, only that case of the second matters. -/
theorem bind_normal {x : Run Completion} {f : Completion → Run Completion}
    (hx : FallsThrough x) (hf : FallsThrough (f .normal)) : FallsThrough (x >>= f) := by
  intro m completion m'' h
  obtain ⟨first, m', hfirst, hrest⟩ := bind_eq_ok h
  rw [hx m first m' hfirst] at hrest
  exact hf m' completion m'' hrest

/-- Another frame makes no difference. -/
protected theorem within {run : Run Completion} (frame : FrameId) (h : FallsThrough run) :
    FallsThrough (within frame run) := by
  intro m completion m' hrun
  unfold Machine.within at hrun
  cases hinner : run { m with current := frame } with
  | ok first m₁ =>
    rw [hinner] at hrun
    cases hrun
    exact h _ _ _ hinner
  | error halt m₁ =>
    rw [hinner] at hrun
    cases hrun

end FallsThrough

/-- Of the functions of the evaluator, those that run statements fall through
where there is no `return`, with one bound on their depth. -/
structure FallsThroughAt (fuel : Nat) : Prop where
  execute : ∀ stmt : Stmt, ¬ stmt.HasReturn → FallsThrough (execute fuel stmt)
  executeEach : ∀ stmts, ¬ Stmt.AnyHasReturn stmts → FallsThrough (executeEach fuel stmts)
  repeatWhile : ∀ condition (body : Stmt), ¬ body.HasReturn →
    FallsThrough (repeatWhile fuel condition body)

namespace FallsThroughAt

/-- Without fuel a run has no end of its own. -/
theorem zero : FallsThroughAt 0 where
  execute _ _ := .throw _
  executeEach _ _ := .throw _
  repeatWhile _ _ _ := .throw _

section Step

variable {fuel : Nat} (ih : FallsThroughAt fuel)
include ih

/-- A statement without a `return` completes normally, as do the statements in it. -/
theorem execute_succ {stmt : Stmt} (h : ¬ stmt.HasReturn) :
    FallsThrough (Machine.execute (fuel + 1) stmt) := by
  cases stmt with
  | expression expr => exact .bind fun _ => .pure
  | print expr => exact .bind fun _ => .bind fun _ => .pure
  | varDecl name initializer =>
    cases initializer with
    | some expr => exact .bind fun _ => .bind fun _ => .pure
    | none => exact .bind fun _ => .bind fun _ => .pure
  | block body =>
    refine .bind fun _ => .bind fun frame => ?_
    exact (ih.executeEach body h).within frame
  | ifElse condition thenBranch elseBranch =>
    refine .bind fun value => ?_
    cases elseBranch with
    | none =>
      split
      · exact ih.execute thenBranch h
      · exact .pure
    | some elseBranch =>
      split
      · exact ih.execute thenBranch fun hthen => h (.inl hthen)
      -- neither branch has a `return`, as the whole statement has none
      · exact ih.execute elseBranch fun helse => h (.inr helse)
  | whileLoop condition body => exact ih.repeatWhile condition body h
  | funDecl decl => exact .bind fun _ => .bind fun _ => .bind fun _ => .pure
  -- this is the statement that is excluded
  | returnStmt keyword value => exact absurd trivial h
  | classDecl decl =>
    obtain ⟨name, superclass, methods⟩ := decl
    cases superclass with
    | none => exact .bind fun _ => .pure
    | some superclass =>
      refine .bind fun value => ?_
      cases value with
      | classRef parent => exact .bind fun _ => .pure
      | _ => exact .throw _

/-- So do statements in a row, none of which ends the others early. -/
theorem executeEach_succ {stmts : List Stmt} (h : ¬ Stmt.AnyHasReturn stmts) :
    FallsThrough (Machine.executeEach (fuel + 1) stmts) := by
  cases stmts with
  | nil => exact .pure
  | cons stmt rest =>
    have hstmt := ih.execute stmt fun hstmt => h (.inl hstmt)
    have hrest := ih.executeEach rest fun hrest => h (.inr hrest)
    exact hstmt.bind_normal hrest

/-- So does a loop, which goes on until its condition fails. -/
theorem repeatWhile_succ {condition : Expr} {body : Stmt} (h : ¬ body.HasReturn) :
    FallsThrough (Machine.repeatWhile (fuel + 1) condition body) := by
  refine .bind fun value => ?_
  split
  · exact (ih.execute body h).bind_normal (ih.repeatWhile condition body h)
  · exact .pure

end Step

protected theorem all (fuel : Nat) : FallsThroughAt fuel := by
  induction fuel with
  | zero => exact zero
  | succ fuel ih =>
    exact ⟨fun _ => ih.execute_succ, fun _ => ih.executeEach_succ, fun _ _ => ih.repeatWhile_succ⟩

end FallsThroughAt

end Machine

/-! ## Programs -/

/-- Nothing is wrong with a text only if the limits are kept in it. -/
theorem Program.ofSource_allProper {source : String}
    (h : (Program.ofSource source).diagnostics = []) :
    Stmt.AllProper false (Program.ofSource source).stmts := by
  obtain ⟨-, hgrammar⟩ := List.append_eq_nil_iff.mp h
  exact (Grammar.derives_of_complaints_nil (List.map_eq_nil_iff.mp hgrammar)).2

/-- **A `return` stays inside its call.** In a program that nothing is wrong with,
no `return` stands outside the bodies of functions. Each of its statements
therefore either falls through or fails, whatever has been done with the machine
before, and never returns. -/
theorem Program.return_stays_inside {source : String}
    (h : (Program.ofSource source).diagnostics = []) :
    ∀ stmt ∈ (Program.ofSource source).stmts, ¬ stmt.HasReturn ∧
      ∀ (fuel : Nat) (m : Machine), match (m.perform (Machine.execute fuel stmt)).1 with
        | .done completion => completion = .normal
        | .failed _ | .outOfFuel => True := by
  intro stmt hmem
  have hreturn := ((Program.ofSource_allProper h).of_mem hmem).not_hasReturn
  refine ⟨hreturn, fun fuel m => ?_⟩
  unfold Machine.perform
  cases hrun : Machine.execute fuel stmt m with
  | ok completion m' => exact (Machine.FallsThroughAt.all fuel).execute stmt hreturn _ _ _ hrun
  | error halt m' => cases halt <;> trivial

/-- A `return` in a loop in a method, and calls of it at the top. -/
theorem Program.return_stays_inside_method :
    let source := "class A\x7bm()\x7bwhile(true)return;\x7d\x7dwhile(A().m())print nil;"
    (Program.ofSource source).diagnostics = [] ∧
      ∀ stmt ∈ (Program.ofSource source).stmts, ¬ stmt.HasReturn ∧
        ∀ (fuel : Nat) (m : Machine), match (m.perform (Machine.execute fuel stmt)).1 with
          | .done completion => completion = .normal
          | .failed _ | .outOfFuel => True := by
  intro source
  have hclean : (Program.ofSource source).diagnostics = [] := by decide +kernel
  exact ⟨hclean, Program.return_stays_inside hclean⟩

end Lox
