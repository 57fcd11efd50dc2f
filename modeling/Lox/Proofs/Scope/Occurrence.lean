/-
`Lox.Proofs.Scope.Occurrence` -- the variables of a program are tokens of its text.

A tree can be put together in ways in which no text is read: a declaration may be
the branch of a conditional, and one token may stand for two variables. The grammar
rules both out. Declarations stand in lists of statements only (`Stmt.Contained`),
and each variable has a token of its own, which is a name (`Written`). Loops with
clauses are why the order of the variables need not be that of the tokens.

The tokens of a text stand one behind the other. So where their places are in reach,
a variable is known by its token.
-/
import Mathlib.Data.List.Perm.Subperm
import Lox.Proofs.Grammar.Language
import Lox.Proofs.Scope.Nesting
import Lox.Proofs.Token.Coverage

set_option autoImplicit false

namespace Lox

/-! ## Declarations in their places -/

namespace Grammar

/-- Declarations stand in lists of statements, in what a phrase stands for. A
statement is no declaration. -/
def Symbol.Contained : (s : Symbol) → s.Tree → Prop
  | .statement _, stmt | .expressionStatement, stmt => stmt.declared = [] ∧ stmt.Contained
  | .varDeclaration, stmt | .declaration, stmt => stmt.Contained
  | .firstClause, first => ∀ stmt ∈ first, stmt.Contained
  | .function, decl => decl.Contained
  | .methods, decls => FunctionDecl.AllContained decls
  | .declarations, stmts => Stmt.AllContained stmts
  | .primary, _ | .call, _ | .unary, _ | .operand _, _ | .binary _, _ | .expression, _ => True
  | .arguments, _ | .someArguments, _ | .optional, _ | .initializer, _ | .superclass, _ => True
  | .parameters, _ | .someParameters, _ => True

/-- In a loop with clauses declarations stand in lists of statements, as they do in the clauses
and in the body. -/
theorem contained_forLoop {first : Option Stmt} {condition increment : Option Expr} {body : Stmt}
    (hfirst : ∀ stmt ∈ first, stmt.Contained) (hbody : body.declared = [] ∧ body.Contained) :
    (Stmt.forLoop first condition increment body).declared = [] ∧
      (Stmt.forLoop first condition increment body).Contained := by
  cases first <;> cases increment <;>
    simp_all [Stmt.forLoop, Stmt.declared, Stmt.Contained, Stmt.AllContained]

/-- So it is in every phrase. The induction is on the derivation. -/
theorem Derives.contained {s : Symbol} {w : List Token} {t : s.Tree} (h : Derives s w t) :
    s.Contained t := by
  induction h with
  | expressionStatement | print | «return» => exact ⟨rfl, trivial⟩
  | varDeclaration => trivial
  | noClause => exact fun _ hstmt => by cases hstmt
  | varClause _ ih =>
    rintro stmt ⟨⟩
    exact ih
  | expressionClause _ ih =>
    rintro stmt ⟨⟩
    exact ih.2
  | simple _ ih => exact ih
  | block _ _ _ ih => exact ⟨rfl, ih⟩
  | «while» _ _ _ _ _ _ ih => exact ⟨ih.1, ih⟩
  | «for» _ _ _ _ _ _ _ _ ihfirst _ _ ihbody => exact contained_forLoop ihfirst ihbody
  | ifThen _ _ _ _ _ _ ih => exact ⟨ih.1, ih⟩
  | ifElse _ _ _ _ _ _ _ _ ihthen ihelse =>
    exact ⟨List.append_eq_nil_iff.mpr ⟨ihthen.1, ihelse.1⟩, ihthen, ihelse⟩
  | function _ _ _ _ _ _ _ _ ih => exact ih
  | noMethods => trivial
  | method _ _ ih ih' => exact ⟨ih, ih'⟩
  | classDeclaration _ _ _ _ _ _ _ ih => exact ih
  | functionDeclaration _ _ ih => exact ih
  | variableDeclaration _ ih => exact ih
  | statement _ ih => exact ih.2
  | noDeclarations => trivial
  | declarations _ _ ih ih' => exact ⟨ih, ih'⟩
  | _ => trivial

end Grammar

/-! ## Tokens of variables -/

/-- Each of these tokens is one of the others, which is a name, and no two are the
same one. -/
def Written (names w : List Token) : Prop :=
  List.Subperm names (w.filter fun t => t.kind = .identifier)

namespace Written

variable {names names' u v w w' : List Token} {t : Token}

protected theorem nil : Written [] w :=
  List.nil_subperm

/-- Names have their tokens in any longer list. -/
protected theorem mono (h : Written names w) (hw : w.Sublist w') : Written names w' :=
  h.trans (hw.filter _).subperm

/-- Names of both parts have tokens of their own, as the parts have no token in common. -/
protected theorem append (h : Written names u) (h' : Written names' v) :
    Written (names ++ names') (u ++ v) := by
  rw [Written, List.filter_append]
  exact List.Subperm.append h h'

/-- A name that comes first is its own token. -/
protected theorem keep (ht : t.kind = .identifier) (h : Written names w) :
    Written (t :: names) (t :: w) := by
  rw [Written, List.filter_cons_of_pos (by simpa using ht)]
  exact (List.subperm_cons t).mpr h

/-- A token may be left out. -/
protected theorem skip (h : Written names w) : Written names (t :: w) :=
  h.mono (List.sublist_cons_self t w)

/-- Those behind may be left out. -/
protected theorem right (h : Written names u) : Written names (u ++ v) :=
  h.mono (List.sublist_append_left u v)

protected theorem left (h : Written names v) : Written names (u ++ v) :=
  h.mono (List.sublist_append_right u v)

/-- The order of the parts does not matter. -/
protected theorem swap (h : Written names (u ++ v)) : Written names (v ++ u) :=
  h.trans (List.perm_append_comm.filter _).subperm

/-! ### Uses -/

/-- Uses in two parts are uses in both. -/
theorem uses_append {uses uses' : List Use} (h : Written (uses.map Use.name) u)
    (h' : Written (uses'.map Use.name) v) :
    Written ((uses ++ uses').map Use.name) (u ++ v) := by
  rw [List.map_append]
  exact h.append h'

/-- The variables of an expression are its uses, whatever scopes are around. -/
theorem uses_expr {expr : Expr} (h : Written expr.variables w) (around : Nesting) :
    Written ((expr.uses around).map Use.name) w := by
  have hnames : (expr.uses around).map Use.name = expr.variables := by
    rw [Expr.uses, List.map_map]
    exact List.map_id _
  rwa [hnames]

/-- So are those of an expression that may be missing. -/
theorem uses_option {initializer : Option Expr}
    (h : Written (initializer.elim [] Expr.variables) w) (around : Nesting) :
    Written ((initializer.elim [] (Expr.uses around)).map Use.name) w := by
  cases initializer with
  | none => exact h
  | some expr => exact uses_expr h around

/-- The uses in two statements are those of both. -/
theorem uses_pair {stmt stmt' : Stmt} (h : ∀ around, Written ((stmt.uses around).map Use.name) u)
    (h' : ∀ around, Written ((stmt'.uses around).map Use.name) v) (around : Nesting) :
    Written ((Stmt.usesEach around [stmt, stmt']).map Use.name) (u ++ v) := by
  refine (h _).uses_append ?_
  show Written ((stmt'.uses _ ++ []).map Use.name) v
  rw [List.append_nil]
  exact h' _

/-- The uses in a function are those in its body. -/
theorem uses_function {decl : FunctionDecl}
    (h : ∀ around, Written ((Stmt.usesEach around decl.body).map Use.name) w) (around : Nesting) :
    Written ((decl.uses around).map Use.name) w := by
  cases decl
  exact h _

end Written

namespace Grammar

/-- Each variable of what a phrase stands for has a token of its own in it. -/
def Symbol.Written (w : List Token) : (s : Symbol) → s.Tree → Prop
  | .primary, e | .call, e | .unary, e | .operand _, e | .binary _, e | .expression, e =>
    Lox.Written e.variables w
  | .arguments, args | .someArguments, args => Lox.Written (Expr.variablesEach args) w
  | .optional, e | .initializer, e | .superclass, e => Lox.Written (e.elim [] Expr.variables) w
  | .statement _, stmt | .expressionStatement, stmt | .varDeclaration, stmt | .declaration, stmt =>
    ∀ around, Lox.Written ((stmt.uses around).map Use.name) w
  | .firstClause, first =>
    ∀ around, Lox.Written ((first.elim [] (Stmt.uses around)).map Use.name) w
  | .function, decl => ∀ around, Lox.Written ((decl.uses around).map Use.name) w
  | .methods, decls =>
    ∀ around, Lox.Written ((FunctionDecl.usesEach around decls).map Use.name) w
  | .declarations, stmts => ∀ around, Lox.Written ((Stmt.usesEach around stmts).map Use.name) w
  | .parameters, _ | .someParameters, _ => True

/-- The variables of a loop with clauses. In the tree the increment is behind the
body, and in the text before it. -/
theorem written_forLoop {u v w x : List Token} {first : Option Stmt}
    {condition increment : Option Expr} {body : Stmt}
    (hfirst : ∀ around, Written ((first.elim [] (Stmt.uses around)).map Use.name) u)
    (hcondition : Written (condition.elim [] Expr.variables) v)
    (hincrement : Written (increment.elim [] Expr.variables) w)
    (hbody : ∀ around, Written ((body.uses around).map Use.name) x) (around : Nesting) :
    Written (((Stmt.forLoop first condition increment body).uses around).map Use.name)
      (u ++ (v ++ (w ++ x))) := by
  let round : Stmt := increment.elim body fun step => .block [body, .expression step]
  let loop : Stmt := .whileLoop (condition.getD (.literal (.bool true))) round
  -- the body comes first in the tree, and last in the text
  have hround : ∀ around, Written ((round.uses around).map Use.name) (w ++ x) := by
    intro around
    cases increment with
    | none => exact (hbody around).left
    | some step =>
      have hstep : ∀ around, Written (((Stmt.expression step).uses around).map Use.name) w :=
        Written.uses_expr hincrement
      exact (Written.uses_pair hbody hstep _).swap
  have hloop : ∀ around, Written ((loop.uses around).map Use.name) (v ++ (w ++ x)) := by
    intro around
    refine (Written.uses_expr ?_ around).uses_append (hround around)
    cases condition with
    | none => exact .nil
    | some e => exact hcondition
  cases first with
  | none => cases increment <;> exact (hloop around).left
  | some stmt => cases increment <;> exact Written.uses_pair hfirst hloop _

/-- In every phrase each variable has a token of its own. The induction is on the derivation. -/
theorem Derives.written {s : Symbol} {w : List Token} {t : s.Tree} (h : Derives s w t) :
    s.Written w t := by
  induction h with
  -- constants and keywords are no variables
  | literal | trueValue | falseValue | nilValue | this | super => exact .nil
  | name hname => exact .keep hname .nil
  | grouping _ _ _ ih => exact (Written.right ih).skip
  | callee _ ih => exact ih
  -- in two parts variables have their tokens apart, and the marks between them are skipped
  | call _ _ _ _ ih ih' => exact Written.append ih (Written.right ih').skip
  | get _ _ _ ih => exact Written.right ih
  | noArguments => exact .nil
  | arguments _ ih => exact ih
  | lastArgument _ ih =>
    show Lox.Written (_ ++ []) _
    rw [List.append_nil]
    exact ih
  | argument _ _ _ ih ih' => exact Written.append ih (Written.skip ih')
  | unsigned _ ih => exact ih
  | sign _ _ ih => exact Written.skip ih
  | innermost _ ih => exact ih
  | tighter _ _ ih => exact ih
  | single _ ih => exact ih
  | connected _ _ _ _ ih ih' => exact Written.append ih (Written.skip ih')
  | joined _ _ _ _ ih ih' => exact Written.append ih (Written.skip ih')
  | value _ ih => exact ih
  -- the name that is assigned is itself one of the variables
  | assign hname _ _ ih => exact .keep hname (Written.skip ih)
  | set _ _ _ _ _ ih ih' => exact Written.append ih (Written.skip ih').skip.skip
  | missing => exact .nil
  | present _ ih => exact ih
  | uninitialized => exact .nil
  | initialized _ _ ih => exact Written.skip ih
  | expressionStatement _ _ ih => exact fun around => (Written.uses_expr ih around).right
  | varDeclaration _ _ _ _ ih => exact fun around => (Written.uses_option ih around).right.skip.skip
  | noClause => exact fun _ => .nil
  | varClause _ ih => exact ih
  | expressionClause _ ih => exact ih
  | simple _ ih => exact ih
  | print _ _ _ ih => exact fun around => (Written.uses_expr ih around).right.skip
  | «return» _ _ _ ih => exact fun around => (Written.uses_option ih around).right.skip
  | block _ _ _ ih => exact fun around => (ih _).right.skip
  | «while» _ _ _ _ _ ih ih' =>
    intro around
    exact ((Written.uses_expr ih around).uses_append (ih' around).skip).skip.skip
  -- the increment stands before the body in the text and behind it in the tree
  | «for» _ _ _ _ _ _ _ _ ihfirst ihcondition ihincrement ihbody =>
    intro around
    refine (written_forLoop ihfirst ihcondition ihincrement ihbody around).mono ?_
    refine .cons _ (.cons _ ((List.Sublist.refl _).append ((List.Sublist.refl _).append ?_)))
    exact .cons _ ((List.Sublist.refl _).append (List.sublist_cons_self _ _))
  | ifThen _ _ _ _ _ ih ih' =>
    intro around
    exact ((Written.uses_expr ih around).uses_append (ih' around).skip).skip.skip
  | ifElse _ _ _ _ _ _ _ ih ihthen ihelse =>
    intro around
    refine ((Written.uses_expr ih around).uses_append ?_).skip.skip
    exact ((ihthen around).uses_append (ihelse around).skip).skip
  | noParameters | parameters | lastParameter | parameter => trivial
  -- parameters are no uses, so the tokens of the list are skipped
  | function _ _ _ _ _ _ _ _ ih =>
    exact Written.uses_function fun around => (ih around).right.skip.skip.left.skip.skip
  | noMethods => exact fun _ => .nil
  | method _ _ ih ih' => exact fun around => (ih around).uses_append (ih' around)
  | noSuperclass => exact .nil
  | superclass _ hparent => exact Written.skip (.keep hparent .nil)
  | classDeclaration _ _ _ _ _ _ ih ih' =>
    exact fun around => ((Written.uses_option ih around).uses_append (ih' _).right.skip).skip.skip
  | functionDeclaration _ _ ih => exact fun around => (ih _).skip
  | variableDeclaration _ ih => exact ih
  | statement _ ih => exact ih
  | noDeclarations => exact fun _ => .nil
  | declarations _ _ ih ih' => exact fun around => (ih _).uses_append (ih' _)

end Grammar

/-! ## Programs -/

namespace Program

variable {source : String}

/-- A text without diagnostics derives its program. -/
theorem derives_of_diagnostics_nil (h : (Program.ofSource source).diagnostics = []) :
    Grammar.Derives .declarations (Grammar.Cursor.start (scan source).tokens).rest
      (Program.ofSource source).stmts :=
  (Grammar.derives_of_complaints_nil (List.map_eq_nil_iff.mp (List.append_eq_nil_iff.mp h).2)).1

/-- In a program that nothing is wrong with, declarations stand in lists of
statements. -/
theorem ofSource_contained (h : (Program.ofSource source).diagnostics = []) :
    Stmt.AllContained (Program.ofSource source).stmts :=
  (derives_of_diagnostics_nil h).contained

/-- So the uses in a program have tokens of their own in its text. -/
theorem names_written (h : (Program.ofSource source).diagnostics = []) :
    Written ((Program.ofSource source).uses.map Use.name) (scan source).tokens := by
  have hwritten := (derives_of_diagnostics_nil h).written []
  exact Written.mono hwritten (List.takeWhile_sublist _)

/-- No variable of such a program has the name that a receiver or a superclass goes
by. -/
theorem name_ne_keyword (h : (Program.ofSource source).diagnostics = []) :
    ∀ u ∈ (Program.ofSource source).uses, u.name.lexeme ≠ "this" ∧ u.name.lexeme ≠ "super" := by
  intro u hu
  have hmem := List.mem_filter.mp ((names_written h).subset (List.mem_map_of_mem hu))
  have hkind : u.name.kind = .identifier := by simpa using hmem.2
  have hlexeme := lexeme_of_mem_scan hmem.1 (by rw [hkind]; decide)
  rw [hkind] at hlexeme
  have hfree := hlexeme.not_mem_reserved
  rw [String.ofList_toList] at hfree
  constructor
  · rintro hthis
    exact hfree .kwThis (hthis ▸ by decide)
  · rintro hsuper
    exact hfree .kwSuper (hsuper ▸ by decide)

/-- Where all places are in reach, a variable is known by its token. -/
theorem names_nodup (h : (Program.ofSource source).diagnostics = [])
    (hsize : source.utf8ByteSize < UInt32.size) :
    ((Program.ofSource source).uses.map Use.name).Nodup := by
  obtain ⟨names, hperm, hsublist⟩ := names_written h
  exact hperm.nodup_iff.mp ((scan_nodup hsize).sublist hsublist)

end Program

end Lox
