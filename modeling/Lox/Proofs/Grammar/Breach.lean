/-
`Lox.Proofs.Grammar.Breach` -- reading on where a limit is not kept.

The limits are what the rules of the grammar leave open: how many arguments and parameters
there may be, where a `return` may stand, and what a class may inherit from. Where one is
not kept, the readers complain and go on. So what they complain about can be told from the
tree: of each list the entries beyond the allowed number, one by one, each `return` outside
of functions, and each class that inherits from itself (`Stmt.breaches`).

Only the causes are told, and not in which order they are complained about, because that is
not the order in which they stand in the tree: of a loop with clauses the increment is read
before the body, and stands behind it.

A reader that goes on is described as one that makes no complaint is (`Reads`), together with
the causes that it notes on the way (`Notes`). What was complained about before makes no
difference to it, so the causes of readers after one another add up.
-/
import Lox.Proofs.Grammar.Clean
import Lox.Proofs.Grammar.Derivation
import Mathlib.Algebra.Order.Group.Multiset
import Mathlib.Tactic.Abel

set_option autoImplicit false

namespace Lox

open Grammar

/-! ## Breaches of the limits -/

mutual

/-- The limits that are not kept in an expression. Every argument beyond the allowed number
counts, and the lists of arguments count separately. -/
def Expr.breaches : Expr → Multiset Cause
  | .literal _ | .variable _ | .this _ | .super _ _ => 0
  | .grouping inner => inner.breaches
  | .unary _ operand => operand.breaches
  | .binary left _ right | .logical left _ right => left.breaches + right.breaches
  | .assign _ value => value.breaches
  | .call callee _ args =>
    callee.breaches +
      (.replicate (args.length - maxEntries) .tooManyArguments + Expr.breachesEach args)
  | .get object _ => object.breaches
  | .set object _ value => object.breaches + value.breaches

def Expr.breachesEach : List Expr → Multiset Cause
  | [] => 0
  | expr :: rest => expr.breaches + Expr.breachesEach rest

end

/-- The breach of a class that has its own name as that of its superclass. -/
def Expr.selfInheritance (name : Token) : Option Expr → Multiset Cause
  | some (.variable parent) => if parent.lexeme = name.lexeme then {.selfInheritance} else 0
  | _ => 0

mutual

/-- The limits that are not kept in a statement, where `inside` says whether it stands in
the body of a function. -/
def Stmt.breaches (inside : Bool) : Stmt → Multiset Cause
  | .expression expr | .print expr => expr.breaches
  | .varDecl _ initializer => initializer.elim 0 Expr.breaches
  | .block body => Stmt.breachesEach inside body
  | .ifElse condition thenBranch none => condition.breaches + thenBranch.breaches inside
  | .ifElse condition thenBranch (some elseBranch) =>
    condition.breaches + (thenBranch.breaches inside + elseBranch.breaches inside)
  | .whileLoop condition body => condition.breaches + body.breaches inside
  | .funDecl decl => decl.breaches
  | .returnStmt _ value =>
    (if inside then 0 else {.returnOutside}) + value.elim 0 Expr.breaches
  | .classDecl decl => decl.breaches

def Stmt.breachesEach (inside : Bool) : List Stmt → Multiset Cause
  | [] => 0
  | stmt :: rest => stmt.breaches inside + Stmt.breachesEach inside rest

/-- Every parameter beyond the allowed number counts. -/
def FunctionDecl.breaches : FunctionDecl → Multiset Cause
  | ⟨_, params, body⟩ =>
    .replicate (params.length - maxEntries) .tooManyParameters + Stmt.breachesEach true body

def FunctionDecl.breachesEach : List FunctionDecl → Multiset Cause
  | [] => 0
  | decl :: rest => decl.breaches + FunctionDecl.breachesEach rest

def ClassDecl.breaches : ClassDecl → Multiset Cause
  | ⟨name, superclass, methods⟩ =>
    Expr.selfInheritance name superclass + FunctionDecl.breachesEach methods

end

/-- In a loop with clauses those limits are not kept that are not kept in its parts. -/
theorem Stmt.breaches_forLoop {inside : Bool} {first : Option Stmt}
    {condition increment : Option Expr} {body : Stmt} :
    (Stmt.forLoop first condition increment body).breaches inside
      = first.elim 0 (Stmt.breaches inside) + (condition.elim 0 Expr.breaches +
          (increment.elim 0 Expr.breaches + body.breaches inside)) := by
  cases first <;> cases condition <;> cases increment <;>
    simp only [Stmt.forLoop, Stmt.breaches, Stmt.breachesEach, Expr.breaches, Option.elim,
      Option.getD] <;> abel

/-! ### Limits that are kept -/

mutual

/-- A proper expression keeps all limits. -/
theorem Expr.breaches_of_proper : ∀ expr : Expr, expr.Proper → expr.breaches = 0
  | .literal _, _ | .variable _, _ | .this _, _ | .super _ _, _ => rfl
  | .grouping inner, h => Expr.breaches_of_proper inner h
  | .unary _ operand, h => Expr.breaches_of_proper operand h
  | .binary left _ right, h | .logical left _ right, h => by
    rw [Expr.breaches, Expr.breaches_of_proper left h.1, Expr.breaches_of_proper right h.2,
      add_zero]
  | .assign _ value, h => Expr.breaches_of_proper value h
  | .call callee _ args, h => by
    rw [Expr.breaches, Expr.breaches_of_proper callee h.1, Expr.breachesEach_of_proper args h.2.2,
      Nat.sub_eq_zero_of_le h.2.1, Multiset.replicate_zero, add_zero, add_zero]
  | .get object _, h => Expr.breaches_of_proper object h
  | .set object _ value, h => by
    rw [Expr.breaches, Expr.breaches_of_proper object h.1, Expr.breaches_of_proper value h.2,
      add_zero]

theorem Expr.breachesEach_of_proper :
    ∀ exprs : List Expr, Expr.AllProper exprs → Expr.breachesEach exprs = 0
  | [], _ => rfl
  | expr :: rest, h => by
    rw [Expr.breachesEach, Expr.breaches_of_proper expr h.1, Expr.breachesEach_of_proper rest h.2,
      add_zero]

end

/-- The same for an expression that may be missing. -/
theorem Expr.elim_breaches_of_proper {found : Option Expr} (h : ∀ e ∈ found, e.Proper) :
    found.elim 0 Expr.breaches = 0 := by
  cases found with
  | none => rfl
  | some e => exact e.breaches_of_proper (h e rfl)

/-- A superclass with another name is no breach. -/
theorem Expr.selfInheritance_of_proper {name : Token} {superclass : Option Expr}
    (h : ∀ parent, superclass = some (.variable parent) → parent.lexeme ≠ name.lexeme) :
    Expr.selfInheritance name superclass = 0 := by
  unfold Expr.selfInheritance
  split
  · exact if_neg (h _ rfl)
  · rfl

mutual

/-- A proper statement keeps all limits. The induction is on the tree, and goes into functions
with `inside` set. -/
theorem Stmt.breaches_of_proper :
    ∀ (inside : Bool) (stmt : Stmt), stmt.Proper inside → stmt.breaches inside = 0
  | _, .expression expr, h | _, .print expr, h => expr.breaches_of_proper h
  | _, .varDecl _ _, h => Expr.elim_breaches_of_proper h
  | inside, .block body, h => Stmt.breachesEach_of_proper inside body h
  | inside, .ifElse condition thenBranch none, h => by
    rw [Stmt.breaches, condition.breaches_of_proper h.1,
      Stmt.breaches_of_proper inside thenBranch h.2, add_zero]
  | inside, .ifElse condition thenBranch (some elseBranch), h => by
    rw [Stmt.breaches, condition.breaches_of_proper h.1,
      Stmt.breaches_of_proper inside thenBranch h.2.1,
      Stmt.breaches_of_proper inside elseBranch h.2.2, add_zero, add_zero]
  | inside, .whileLoop condition body, h => by
    rw [Stmt.breaches, condition.breaches_of_proper h.1, Stmt.breaches_of_proper inside body h.2,
      add_zero]
  | _, .funDecl decl, h => FunctionDecl.breaches_of_proper decl h
  | inside, .returnStmt _ value, h => by
    rw [Stmt.breaches, Expr.elim_breaches_of_proper h.2, if_pos h.1, add_zero]
  | _, .classDecl decl, h => ClassDecl.breaches_of_proper decl h

theorem Stmt.breachesEach_of_proper :
    ∀ (inside : Bool) (stmts : List Stmt), Stmt.AllProper inside stmts →
      Stmt.breachesEach inside stmts = 0
  | _, [], _ => rfl
  | inside, stmt :: rest, h => by
    rw [Stmt.breachesEach, Stmt.breaches_of_proper inside stmt h.1,
      Stmt.breachesEach_of_proper inside rest h.2, add_zero]

/-- A proper function has neither too many parameters nor a breach in its body. -/
theorem FunctionDecl.breaches_of_proper : ∀ decl : FunctionDecl, decl.Proper → decl.breaches = 0
  | ⟨_, params, body⟩, h => by
    rw [FunctionDecl.breaches, Nat.sub_eq_zero_of_le h.1, Stmt.breachesEach_of_proper true body h.2,
      Multiset.replicate_zero, add_zero]

theorem FunctionDecl.breachesEach_of_proper :
    ∀ decls : List FunctionDecl, FunctionDecl.AllProper decls →
      FunctionDecl.breachesEach decls = 0
  | [], _ => rfl
  | decl :: rest, h => by
    rw [FunctionDecl.breachesEach, FunctionDecl.breaches_of_proper decl h.1,
      FunctionDecl.breachesEach_of_proper rest h.2, add_zero]

/-- A proper class does not inherit from itself, and its methods keep the limits. -/
theorem ClassDecl.breaches_of_proper : ∀ decl : ClassDecl, decl.Proper → decl.breaches = 0
  | ⟨_, _, methods⟩, h => by
    rw [ClassDecl.breaches, Expr.selfInheritance_of_proper h.1,
      FunctionDecl.breachesEach_of_proper methods h.2, add_zero]

end

namespace Grammar

variable {α β : Type}

/-! ## Readers that note causes -/

/-- What some complaints are about. -/
def causesOf (complaints : Array Complaint) : Multiset Cause :=
  complaints.toList.map Complaint.cause

/-- The causes of all complaints are those of the earlier and those of the later ones. -/
theorem causesOf_append (complaints complaints' : Array Complaint) :
    causesOf (complaints ++ complaints') = causesOf complaints + causesOf complaints' := by
  rw [causesOf, Array.toList_append, List.map_append, ← Multiset.coe_add]
  rfl

/-- Without causes there are no complaints. -/
theorem eq_empty_of_causesOf {complaints : Array Complaint} (h : causesOf complaints = 0) :
    complaints = #[] :=
  Array.toList_eq_nil_iff.mp (List.map_eq_nil_iff.mp ((Multiset.coe_eq_zero _).mp h))

/-- With every bound from some one on, the reader returns `a` at the tokens `ts`, leaves
`ts'`, and complains about these causes and no others. What was complained about earlier is
left as it is. -/
def Notes (f : Nat → TokenReader α) (c : Cursor) (ts : List Token) (a : α) (ts' : List Token)
    (causes : Multiset Cause) : Prop :=
  ∃ n new, causesOf new = causes ∧ ∀ fuel, n ≤ fuel → ∀ earlier : Array Complaint,
    (f fuel).run { c with rest := ts, complaints := earlier }
      = .ok a { c with rest := ts', complaints := earlier ++ new }

/-- A reader that takes its tokens without a complaint does so whatever was complained about
before. -/
theorem Takes.earlier {x : TokenReader α} {c : Cursor} {ts ts' : List Token} {a : α}
    (h : Takes x c ts a ts') (earlier : Array Complaint) :
    Takes x { c with complaints := earlier } ts a ts' := by
  -- the run with nothing complained about yet, of which this one and the given one are moved
  let bare : Cursor := { c with rest := ts, complaints := #[] }
  have hgiven := x.run_earlier bare c.complaints
  have hmoved := x.run_earlier bare earlier
  simp only [Cursor.placed, bare, List.append_nil, Array.append_empty] at hgiven hmoved
  rw [Takes, hgiven] at h
  rw [Takes, hmoved]
  cases hrun : x.run bare with
  | error halt c' =>
    rw [hrun] at h
    cases h
  | ok a' c' =>
    rw [hrun] at h
    obtain ⟨rest, finish, depth, new⟩ := c'
    simp only [Outcome.moved_ok, Cursor.placed, EStateM.Result.ok.injEq, Cursor.mk.injEq,
      List.append_nil, Array.append_right_eq_self] at h
    obtain ⟨rfl, rfl, -, rfl, rfl⟩ := h
    simp only [Outcome.moved_ok, Cursor.placed, List.append_nil, Array.append_empty]

namespace Notes

variable {f : Nat → TokenReader α} {c : Cursor} {ts ts' ts'' : List Token} {a : α} {b : β}
  {causes causes' : Multiset Cause}

/-- The causes may be written in any way, as they are counted and not ordered. -/
theorem of_eq (h : Notes f c ts a ts' causes) (heq : causes = causes') :
    Notes f c ts a ts' causes' :=
  heq ▸ h

/-- A reader that makes no complaint notes nothing. -/
theorem of_reads (h : Reads f c ts a ts') : Notes f c ts a ts' 0 := by
  obtain ⟨n, hn⟩ := h
  refine ⟨n, #[], rfl, fun fuel hfuel earlier => ?_⟩
  rw [Array.append_empty]
  exact (hn fuel hfuel).earlier earlier

/-- A reader that notes nothing makes no complaint. -/
theorem reads (h : Notes f c ts a ts' 0) : Reads f c ts a ts' := by
  obtain ⟨n, new, hnew, hn⟩ := h
  refine ⟨n, fun fuel hfuel => ?_⟩
  have hrun := hn fuel hfuel c.complaints
  rw [eq_empty_of_causesOf hnew, Array.append_empty] at hrun
  exact hrun

/-- Returning a value notes nothing. -/
protected theorem pure (a : α) : Notes (fun _ => pure a) c ts a ts 0 :=
  of_reads (.pure a)

/-- Readers after one another note what both note. The bound that is enough is the larger one of
both. -/
protected theorem bind {g : Nat → α → TokenReader β} (hf : Notes f c ts a ts' causes)
    (hg : Notes (fun fuel => g fuel a) c ts' b ts'' causes') :
    Notes (fun fuel => f fuel >>= g fuel) c ts b ts'' (causes + causes') := by
  obtain ⟨n, new, rfl, hn⟩ := hf
  obtain ⟨m, new', rfl, hm⟩ := hg
  refine ⟨max n m, new ++ new', causesOf_append new new', fun fuel hfuel earlier => ?_⟩
  have hnfuel : n ≤ fuel := Nat.le_trans (Nat.le_max_left n m) hfuel
  have hmfuel : m ≤ fuel := Nat.le_trans (Nat.le_max_right n m) hfuel
  rw [TokenReader.run_bind_of_ok (hn fuel hnfuel earlier), ← Array.append_assoc]
  exact hm fuel hmfuel (earlier ++ new)

/-- A step that makes no complaint, and then the rest. -/
theorem step {x : TokenReader α} {g : Nat → α → TokenReader β} (hx : Takes x c ts a ts')
    (hg : Notes (fun fuel => g fuel a) c ts' b ts'' causes) :
    Notes (fun fuel => x >>= g fuel) c ts b ts'' causes :=
  ((of_reads (.of_takes fun _ => hx)).bind hg).of_eq (zero_add causes)

/-- Behind the last reader that notes anything. -/
theorem ends {g : Nat → α → TokenReader β} (hf : Notes f c ts a ts' causes)
    (hg : Reads (fun fuel => g fuel a) c ts' b ts'') :
    Notes (fun fuel => f fuel >>= g fuel) c ts b ts'' causes :=
  (hf.bind (of_reads hg)).of_eq (add_zero causes)

/-- What is done with the result notes nothing. -/
protected theorem map {g : α → β} (hf : Notes f c ts a ts' causes) :
    Notes (fun fuel => g <$> f fuel) c ts (g a) ts' causes :=
  hf.ends (.pure (g a))

/-- The reader hands a smaller bound on than the one it was given. -/
theorem succ (h : Notes (fun fuel => f (fuel + 1)) c ts a ts' causes) :
    Notes f c ts a ts' causes := by
  obtain ⟨n, new, hnew, hn⟩ := h
  refine ⟨n + 1, new, hnew, fun fuel hfuel earlier => ?_⟩
  obtain ⟨fuel, rfl⟩ : ∃ k, fuel = k + 1 := ⟨fuel - 1, by omega⟩
  exact hn fuel (by omega) earlier

/-- What is noted inside of a function is noted outside. -/
protected theorem insideBody
    (hf : Notes f { c with depth := c.depth + 1 } ts a ts' causes) :
    Notes (fun fuel => insideBody (f fuel)) c ts a ts' causes := by
  obtain ⟨n, new, hnew, hn⟩ := hf
  refine ⟨n, new, hnew, fun fuel hfuel earlier => ?_⟩
  let inside : Cursor := { c with rest := ts, depth := c.depth + 1, complaints := earlier }
  show Outcome.moved _ ((f fuel).run inside) = _
  rw [hn fuel hfuel earlier]
  rfl

/-- A reader that comes through has nothing to recover from. -/
protected theorem recovering (hf : Notes f c ts a ts' causes) :
    Notes (fun fuel => recovering (f fuel)) c ts (some a) ts' causes := by
  obtain ⟨n, new, hnew, hn⟩ := hf
  refine ⟨n, new, hnew, fun fuel hfuel earlier => ?_⟩
  show Step.recovering (f fuel).run { c with rest := ts, complaints := earlier } = _
  rw [Step.recovering, hn fuel hfuel earlier]

/-- A complaint in passing. -/
theorem complain {cause : Cause} (token : Token) (h : cause.isStructural = false) :
    Notes (fun _ => Grammar.complain cause token h) c ts () ts {cause} := by
  refine ⟨0, #[⟨cause, token⟩], rfl, fun fuel _ earlier => ?_⟩
  rw [← Array.push_eq_append]
  rfl

/-- A complaint that goes on is its own cause, and takes no token. -/
theorem complainHere {cause : Cause} (h : cause.isStructural = false) :
    Notes (fun _ => Grammar.complainHere cause h) c ts () ts {cause} := by
  refine ⟨0, #[⟨cause, ts.headD c.finish⟩], rfl, fun fuel _ earlier => ?_⟩
  rw [← Array.push_eq_append]
  rfl

end Notes

end Grammar

end Lox
