/-
`Lox.Proofs.Likeness.Tree` -- trees that differ in nothing but their tokens.

Two trees are alike if they have one shape, and wherever a token plays a role in one of
them, the token in its place in the other is a counterpart of it. What counts as a
counterpart is a parameter: it may be that the two tokens are one word written in two
places, and it may be that they are one token, of a kind that fits the role. In the
second case trees that are alike are equal (`Stmt.Alike.eq`), and to say that a tree is
like itself is to say something about the tokens in it.
-/
import Lox.Proofs.Grammar.Formed
import Mathlib.Data.List.Forall2
import Mathlib.Data.Option.Basic

set_option autoImplicit false

namespace Lox

/-! ## Words -/

/-- The tokens are one word, perhaps in two places. -/
structure Token.SameWord (t t' : Token) : Prop where
  kind : t.kind = t'.kind
  lexeme : t.lexeme = t'.lexeme
  literal : t.literal = t'.literal

/-- The token is pointed at in the same words. -/
theorem Token.SameWord.location {t t' : Token} (h : t.SameWord t') :
    t.location = t'.location := by
  unfold Token.location
  rw [h.kind, h.lexeme]

/-! ## Alike trees -/

section Alike

-- which tokens are counterparts in a role
variable (P : Role → Token → Token → Prop)

/-- The expressions have one shape, and their tokens are counterparts. -/
inductive Expr.Alike : Expr → Expr → Prop
  | literal (value : Constant) : Alike (.literal value) (.literal value)
  | grouping {inner inner' : Expr} :
    Alike inner inner' → Alike (.grouping inner) (.grouping inner')
  | unary {op op' : Token} {operand operand' : Expr} :
    P .sign op op' → Alike operand operand' → Alike (.unary op operand) (.unary op' operand')
  | binary {left left' right right' : Expr} {op op' : Token} :
    Alike left left' → P .operator op op' → Alike right right' →
    Alike (.binary left op right) (.binary left' op' right')
  | logical {left left' right right' : Expr} {op op' : Token} :
    Alike left left' → P .connective op op' → Alike right right' →
    Alike (.logical left op right) (.logical left' op' right')
  | variable {name name' : Token} :
    P .name name name' → Alike (.variable name) (.variable name')
  | assign {name name' : Token} {value value' : Expr} :
    P .name name name' → Alike value value' → Alike (.assign name value) (.assign name' value')
  | call {callee callee' : Expr} {paren paren' : Token} {args args' : List Expr} :
    Alike callee callee' → P .closing paren paren' → List.Forall₂ Alike args args' →
    Alike (.call callee paren args) (.call callee' paren' args')
  | get {object object' : Expr} {name name' : Token} :
    Alike object object' → P .name name name' → Alike (.get object name) (.get object' name')
  | set {object object' value value' : Expr} {name name' : Token} :
    Alike object object' → P .name name name' → Alike value value' →
    Alike (.set object name value) (.set object' name' value')
  | this {keyword keyword' : Token} :
    P .receiver keyword keyword' → Alike (.this keyword) (.this keyword')
  | super {keyword keyword' method method' : Token} :
    P .superclass keyword keyword' → P .name method method' →
    Alike (.super keyword method) (.super keyword' method')

mutual

/-- The statements have one shape, and their tokens are counterparts. -/
inductive Stmt.Alike : Stmt → Stmt → Prop
  | expression {expr expr' : Expr} :
    expr.Alike P expr' → Stmt.Alike (.expression expr) (.expression expr')
  | print {expr expr' : Expr} : expr.Alike P expr' → Stmt.Alike (.print expr) (.print expr')
  | varDecl {name name' : Token} {initializer initializer' : Option Expr} :
    P .name name name' → Option.Rel (Expr.Alike P) initializer initializer' →
    Stmt.Alike (.varDecl name initializer) (.varDecl name' initializer')
  | block {body body' : List Stmt} :
    List.Forall₂ Stmt.Alike body body' → Stmt.Alike (.block body) (.block body')
  | ifElse {condition condition' : Expr} {thenBranch thenBranch' : Stmt}
      {elseBranch elseBranch' : Option Stmt} :
    condition.Alike P condition' → Stmt.Alike thenBranch thenBranch' →
    Option.Rel Stmt.Alike elseBranch elseBranch' →
    Stmt.Alike (.ifElse condition thenBranch elseBranch)
      (.ifElse condition' thenBranch' elseBranch')
  | whileLoop {condition condition' : Expr} {body body' : Stmt} :
    condition.Alike P condition' → Stmt.Alike body body' →
    Stmt.Alike (.whileLoop condition body) (.whileLoop condition' body')
  | funDecl {decl decl' : FunctionDecl} :
    FunctionDecl.Alike decl decl' → Stmt.Alike (.funDecl decl) (.funDecl decl')
  | returnStmt {keyword keyword' : Token} {value value' : Option Expr} :
    P .returning keyword keyword' → Option.Rel (Expr.Alike P) value value' →
    Stmt.Alike (.returnStmt keyword value) (.returnStmt keyword' value')
  | classDecl {decl decl' : ClassDecl} :
    ClassDecl.Alike decl decl' → Stmt.Alike (.classDecl decl) (.classDecl decl')

inductive FunctionDecl.Alike : FunctionDecl → FunctionDecl → Prop
  | intro {name name' : Token} {params params' : List Token} {body body' : List Stmt} :
    P .name name name' → List.Forall₂ (P .name) params params' →
    List.Forall₂ Stmt.Alike body body' →
    FunctionDecl.Alike ⟨name, params, body⟩ ⟨name', params', body'⟩

inductive ClassDecl.Alike : ClassDecl → ClassDecl → Prop
  | intro {name name' : Token} {superclass superclass' : Option Expr}
      {methods methods' : List FunctionDecl} :
    P .name name name' → Option.Rel (Expr.Alike P) superclass superclass' →
    List.Forall₂ FunctionDecl.Alike methods methods' →
    ClassDecl.Alike ⟨name, superclass, methods⟩ ⟨name', superclass', methods'⟩

end

variable {P}

/-- The names of functions that are alike are counterparts. -/
theorem FunctionDecl.Alike.name {decl decl' : FunctionDecl} (h : decl.Alike P decl') :
    P .name decl.name decl'.name := by
  cases h
  assumption

theorem FunctionDecl.Alike.params {decl decl' : FunctionDecl} (h : decl.Alike P decl') :
    List.Forall₂ (P .name) decl.params decl'.params := by
  cases h
  assumption

/-- Their bodies are alike. -/
theorem FunctionDecl.Alike.body {decl decl' : FunctionDecl} (h : decl.Alike P decl') :
    List.Forall₂ (Stmt.Alike P) decl.body decl'.body := by
  cases h
  assumption

/-- Loops with clauses are alike if their clauses and their bodies are. -/
theorem Stmt.alike_forLoop {initializer initializer' : Option Stmt}
    {condition condition' increment increment' : Option Expr} {body body' : Stmt}
    (hinitializer : Option.Rel (Stmt.Alike P) initializer initializer')
    (hcondition : Option.Rel (Expr.Alike P) condition condition')
    (hincrement : Option.Rel (Expr.Alike P) increment increment') (hbody : body.Alike P body') :
    (Stmt.forLoop initializer condition increment body).Alike P
      (Stmt.forLoop initializer' condition' increment' body') := by
  have htest : (condition.getD (.literal (.bool true))).Alike P
      (condition'.getD (.literal (.bool true))) := by
    cases hcondition with
    | none => exact .literal _
    | some hexpr => exact hexpr
  -- an increment makes the body a block, and a first clause the loop
  cases hincrement with
  | none =>
    have hloop : Stmt.Alike P _ _ := .whileLoop htest hbody
    cases hinitializer with
    | none => exact hloop
    | some hfirst => exact .block (.cons hfirst (.cons hloop .nil))
  | some hstep =>
    have hround : Stmt.Alike P _ _ := .block (.cons hbody (.cons (.expression hstep) .nil))
    have hloop : Stmt.Alike P _ _ := .whileLoop htest hround
    cases hinitializer with
    | none => exact hloop
    | some hfirst => exact .block (.cons hfirst (.cons hloop .nil))

end Alike

/-! ## Trees that are like no others -/

/-- Lists are one if each entry is the one that it is related to. -/
theorem eq_of_forall₂ {α : Type} {R : α → α → Prop} (hR : ∀ a a', R a a' → a = a')
    {list list' : List α} (h : List.Forall₂ R list list') : list = list' := by
  have heq := h.imp hR
  rwa [List.forall₂_eq_eq_eq] at heq

section Equal

variable {P : Role → Token → Token → Prop}

mutual

/-- Where a token has no counterpart but itself, an expression is like no other one. -/
theorem Expr.Alike.eq (hP : ∀ role t t', P role t t' → t = t') {expr expr' : Expr}
    (h : expr.Alike P expr') : expr = expr' := by
  match expr with
  | .literal _ =>
    cases h
    rfl
  | .grouping inner =>
    cases h with
    | grouping hinner => rw [hinner.eq hP]
  | .unary op operand =>
    cases h with
    | unary hop hoperand => rw [hP _ _ _ hop, hoperand.eq hP]
  | .binary left op right =>
    cases h with
    | binary hleft hop hright => rw [hleft.eq hP, hP _ _ _ hop, hright.eq hP]
  | .logical left op right =>
    cases h with
    | logical hleft hop hright => rw [hleft.eq hP, hP _ _ _ hop, hright.eq hP]
  | .variable name =>
    cases h with
    | «variable» hname => rw [hP _ _ _ hname]
  | .assign name value =>
    cases h with
    | assign hname hvalue => rw [hP _ _ _ hname, hvalue.eq hP]
  | .call callee paren args =>
    cases h with
    | call hcallee hparen hargs =>
      rw [hcallee.eq hP, hP _ _ _ hparen, Expr.eq_of_forall₂ hP hargs]
  | .get object name =>
    cases h with
    | get hobject hname => rw [hobject.eq hP, hP _ _ _ hname]
  | .set object name value =>
    cases h with
    | set hobject hname hvalue => rw [hobject.eq hP, hP _ _ _ hname, hvalue.eq hP]
  | .this keyword =>
    cases h with
    | this hkeyword => rw [hP _ _ _ hkeyword]
  | .super keyword method =>
    cases h with
    | super hkeyword hmethod => rw [hP _ _ _ hkeyword, hP _ _ _ hmethod]

/-- If tokens are counterparts of themselves only, so are lists of expressions. -/
theorem Expr.eq_of_forall₂ (hP : ∀ role t t', P role t t' → t = t') {exprs exprs' : List Expr}
    (h : List.Forall₂ (Expr.Alike P) exprs exprs') : exprs = exprs' := by
  match exprs with
  | [] =>
    cases h
    rfl
  | expr :: rest =>
    cases h with
    | cons hexpr hrest => rw [hexpr.eq hP, Expr.eq_of_forall₂ hP hrest]

end

/-- So is an expression that may be missing. -/
theorem Expr.eq_of_rel (hP : ∀ role t t', P role t t' → t = t') {expr expr' : Option Expr}
    (h : Option.Rel (Expr.Alike P) expr expr') : expr = expr' := by
  cases h with
  | none => rfl
  | some hexpr => rw [hexpr.eq hP]

mutual

/-- The same for statements. -/
theorem Stmt.Alike.eq (hP : ∀ role t t', P role t t' → t = t') {stmt stmt' : Stmt}
    (h : stmt.Alike P stmt') : stmt = stmt' := by
  match stmt with
  | .expression expr =>
    cases h with
    | expression hexpr => rw [hexpr.eq hP]
  | .print expr =>
    cases h with
    | print hexpr => rw [hexpr.eq hP]
  | .varDecl name initializer =>
    cases h with
    | varDecl hname hinitializer => rw [hP _ _ _ hname, Expr.eq_of_rel hP hinitializer]
  | .block body =>
    cases h with
    | block hbody => rw [Stmt.eq_of_forall₂ hP hbody]
  -- whether there is an `else` is a part of the shape, so the cases are told apart here
  | .ifElse condition thenBranch none =>
    cases h with
    | ifElse hcondition hthen helse =>
      cases helse
      rw [hcondition.eq hP, hthen.eq hP]
  | .ifElse condition thenBranch (some elseBranch) =>
    cases h with
    | ifElse hcondition hthen helse =>
      cases helse with
      | some helse => rw [hcondition.eq hP, hthen.eq hP, helse.eq hP]
  | .whileLoop condition body =>
    cases h with
    | whileLoop hcondition hbody => rw [hcondition.eq hP, hbody.eq hP]
  | .funDecl decl =>
    cases h with
    | funDecl hdecl => rw [hdecl.eq hP]
  | .returnStmt keyword value =>
    cases h with
    | returnStmt hkeyword hvalue => rw [hP _ _ _ hkeyword, Expr.eq_of_rel hP hvalue]
  | .classDecl ⟨name, superclass, methods⟩ =>
    cases h with
    | classDecl hdecl =>
      cases hdecl with
      | intro hname hsuperclass hmethods =>
        rw [hP _ _ _ hname, Expr.eq_of_rel hP hsuperclass, FunctionDecl.eq_of_forall₂ hP hmethods]

theorem Stmt.eq_of_forall₂ (hP : ∀ role t t', P role t t' → t = t') {stmts stmts' : List Stmt}
    (h : List.Forall₂ (Stmt.Alike P) stmts stmts') : stmts = stmts' := by
  match stmts with
  | [] =>
    cases h
    rfl
  | stmt :: rest =>
    cases h with
    | cons hstmt hrest => rw [hstmt.eq hP, Stmt.eq_of_forall₂ hP hrest]

theorem FunctionDecl.Alike.eq (hP : ∀ role t t', P role t t' → t = t')
    {decl decl' : FunctionDecl} (h : decl.Alike P decl') : decl = decl' := by
  match decl with
  | ⟨name, params, body⟩ =>
    cases h with
    | intro hname hparams hbody =>
      rw [hP _ _ _ hname, eq_of_forall₂ (hP _) hparams, Stmt.eq_of_forall₂ hP hbody]

theorem FunctionDecl.eq_of_forall₂ (hP : ∀ role t t', P role t t' → t = t')
    {decls decls' : List FunctionDecl} (h : List.Forall₂ (FunctionDecl.Alike P) decls decls') :
    decls = decls' := by
  match decls with
  | [] =>
    cases h
    rfl
  | decl :: rest =>
    cases h with
    | cons hdecl hrest => rw [hdecl.eq hP, FunctionDecl.eq_of_forall₂ hP hrest]

end

end Equal

end Lox
