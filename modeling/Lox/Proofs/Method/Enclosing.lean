/-
`Lox.Proofs.Method.Enclosing` -- the classes around a place in a program.

An expression `super.m` means something else in every class, and it is the text that
says in which class it stands: the innermost one whose methods it is in, at whatever
depth of functions and blocks. So each use of `super` is listed with the declarations
of the classes around it (`SuperUse`).

What is kept of a text while it is being run is that its tokens are in order and its
uses of `super` are known (`Lawful`). The tokens matter because `this` and `super` are
found by name, like variables: it must not be possible to bind these names or to
assign to them, and in a text it is not, since they are reserved.
-/
import Lox.Proofs.Grammar.Formed

set_option autoImplicit false

namespace Lox

/-! ## Uses of `super` -/

/-- An expression `super.method`, with the classes whose methods it is in, innermost
first. -/
structure SuperUse where
  keyword : Token
  method : Token
  classes : List ClassDecl

mutual

/-- The uses of `super` in an expression, in which no class can begin. -/
def Expr.superNames : Expr → List (Token × Token)
  | .literal _ | .this _ | .variable _ => []
  | .grouping inner => inner.superNames
  | .unary _ operand => operand.superNames
  | .binary left _ right | .logical left _ right => left.superNames ++ right.superNames
  | .assign _ value => value.superNames
  | .call callee _ args => callee.superNames ++ Expr.superNamesEach args
  | .get object _ => object.superNames
  | .set object _ value => object.superNames ++ value.superNames
  | .super keyword method => [(keyword, method)]

def Expr.superNamesEach : List Expr → List (Token × Token)
  | [] => []
  | expr :: rest => expr.superNames ++ Expr.superNamesEach rest

end

/-- The uses of `super` in an expression, inside of some classes. -/
def Expr.supers (classes : List ClassDecl) (expr : Expr) : List SuperUse :=
  expr.superNames.map fun (keyword, method) => ⟨keyword, method, classes⟩

mutual

/-- The uses of `super` in a statement, inside of some classes. A superclass is an
expression outside of the class it belongs to. -/
def Stmt.supers (classes : List ClassDecl) : Stmt → List SuperUse
  | .expression expr | .print expr => expr.supers classes
  | .varDecl _ initializer => initializer.elim [] (Expr.supers classes)
  | .block body => Stmt.supersEach classes body
  | .ifElse condition thenBranch none => condition.supers classes ++ thenBranch.supers classes
  | .ifElse condition thenBranch (some elseBranch) =>
    condition.supers classes ++ (thenBranch.supers classes ++ elseBranch.supers classes)
  | .whileLoop condition body => condition.supers classes ++ body.supers classes
  | .funDecl decl => decl.supers classes
  | .returnStmt _ value => value.elim [] (Expr.supers classes)
  | .classDecl ⟨name, superclass, methods⟩ =>
    superclass.elim [] (Expr.supers classes) ++
      FunctionDecl.supersEach (⟨name, superclass, methods⟩ :: classes) methods

def Stmt.supersEach (classes : List ClassDecl) : List Stmt → List SuperUse
  | [] => []
  | stmt :: rest => stmt.supers classes ++ Stmt.supersEach classes rest

/-- The uses of `super` in a function or a method. -/
def FunctionDecl.supers (classes : List ClassDecl) : FunctionDecl → List SuperUse
  | ⟨_, _, body⟩ => Stmt.supersEach classes body

def FunctionDecl.supersEach (classes : List ClassDecl) : List FunctionDecl → List SuperUse
  | [] => []
  | decl :: rest => decl.supers classes ++ FunctionDecl.supersEach classes rest

end

/-- The uses of `super` in a program. -/
def Program.supers (program : Program) : List SuperUse :=
  Stmt.supersEach [] program.stmts

section Members

variable {classes : List ClassDecl} {u : SuperUse}

/-- What a statement uses, the statements use that it is one of. -/
theorem Stmt.mem_supersEach {stmts : List Stmt} {stmt : Stmt} (hmem : stmt ∈ stmts)
    (hu : u ∈ stmt.supers classes) : u ∈ Stmt.supersEach classes stmts := by
  induction stmts with
  | nil => cases hmem
  | cons first rest ih =>
    rcases List.mem_cons.mp hmem with rfl | hmem
    · exact List.mem_append_left _ hu
    · exact List.mem_append_right _ (ih hmem)

theorem FunctionDecl.mem_supersEach {decls : List FunctionDecl} {decl : FunctionDecl}
    (hmem : decl ∈ decls) (hu : u ∈ decl.supers classes) :
    u ∈ FunctionDecl.supersEach classes decls := by
  induction decls with
  | nil => cases hmem
  | cons first rest ih =>
    rcases List.mem_cons.mp hmem with rfl | hmem
    · exact List.mem_append_left _ hu
    · exact List.mem_append_right _ (ih hmem)

end Members

/-! ## Names that are bound by the evaluator alone -/

/-- The names of the receiver and of the superclass. No variable has such a name. -/
def keywords : List String := ["this", "super"]

/-- The tokens of a tree are in order: those that are names are not these ones. -/
abbrev Ordered : Role → Token → Prop := Grammar.Fitting Token.Scanned

/-- A name that was read is not `this` and not `super`. -/
theorem Ordered.not_mem_keywords {t : Token} (h : Ordered .name t) : t.lexeme ∉ keywords := by
  intro hmem
  have hfree := Token.Scanned.not_mem_reserved h
  simp only [keywords, List.mem_cons, List.not_mem_nil, or_false] at hmem
  rcases hmem with hthis | hsuper
  · exact hfree .kwThis (hthis ▸ by decide)
  · exact hfree .kwSuper (hsuper ▸ by decide)

/-! ## Pieces of texts -/

section Lawful

-- what is known of the uses of `super` in the texts that are run
variable (U : SuperUse → Prop)

/-- The expression is one of a text, inside of these classes. -/
structure Expr.Lawful (classes : List ClassDecl) (expr : Expr) : Prop where
  formed : expr.Formed Ordered
  supers : ∀ p ∈ expr.superNames, U ⟨p.1, p.2, classes⟩

structure Expr.AllLawful (classes : List ClassDecl) (exprs : List Expr) : Prop where
  formed : Expr.AllFormed Ordered exprs
  supers : ∀ p ∈ Expr.superNamesEach exprs, U ⟨p.1, p.2, classes⟩

structure Stmt.Lawful (classes : List ClassDecl) (stmt : Stmt) : Prop where
  formed : stmt.Formed Ordered
  supers : ∀ u ∈ stmt.supers classes, U u

structure Stmt.AllLawful (classes : List ClassDecl) (stmts : List Stmt) : Prop where
  formed : Stmt.AllFormed Ordered stmts
  supers : ∀ u ∈ Stmt.supersEach classes stmts, U u

structure FunctionDecl.Lawful (classes : List ClassDecl) (decl : FunctionDecl) : Prop where
  formed : decl.Formed Ordered
  supers : ∀ u ∈ decl.supers classes, U u

variable {U} {classes : List ClassDecl}

/-- An expression is lawful if it is formed and its uses are lawful. -/
theorem Expr.Lawful.of_supers {expr : Expr} (hformed : expr.Formed Ordered)
    (hsupers : ∀ u ∈ expr.supers classes, U u) : expr.Lawful U classes :=
  ⟨hformed, List.forall_mem_map.mp hsupers⟩

/-- The body of a lawful function is lawful. -/
theorem FunctionDecl.Lawful.body {decl : FunctionDecl} (h : decl.Lawful U classes) :
    Stmt.AllLawful U classes decl.body := by
  cases decl
  exact ⟨h.formed.2.2, h.supers⟩

/-- Its parameters are no keywords. -/
theorem FunctionDecl.Lawful.params {decl : FunctionDecl} (h : decl.Lawful U classes) :
    ∀ param ∈ decl.params, param.lexeme ∉ keywords := by
  cases decl
  exact fun param hparam => (h.formed.2.1 param hparam).not_mem_keywords

theorem FunctionDecl.Lawful.name {decl : FunctionDecl} (h : decl.Lawful U classes) :
    decl.name.lexeme ∉ keywords := by
  cases decl
  exact h.formed.1.not_mem_keywords

/-- What is declared in a class that is declared in other ones. -/
theorem Stmt.Lawful.classDecl {decl : ClassDecl} (h : (Stmt.classDecl decl).Lawful U classes) :
    decl.name.lexeme ∉ keywords ∧
      (∀ superclass ∈ decl.superclass, superclass.Lawful U classes) ∧
      ∀ method ∈ decl.methods, method.Lawful U (decl :: classes) := by
  obtain ⟨name, superclass, methods⟩ := decl
  obtain ⟨hname, hsuperclass, hmethods⟩ := h.formed
  obtain ⟨hsupers, hsupers'⟩ := List.forall_mem_append.mp h.supers
  refine ⟨hname.not_mem_keywords, ?_, fun method hmem => ⟨hmethods.of_mem hmem, fun u hu =>
    hsupers' u (FunctionDecl.mem_supersEach hmem hu)⟩⟩
  rintro expr rfl
  obtain ⟨parent, rfl, hparent⟩ := hsuperclass expr rfl
  exact .of_supers hparent hsupers

end Lawful

end Lox
