/-
`Lox.Proofs.Scope.Nesting` -- which scope a name belongs to, read off the tree.

Around every place in a program stand some scopes: one for each block, one for
each function or method, one for the receiver of a method, and one for the
superclass that `super` stands for. The global scope is around them all, and is
not counted among them. A variable belongs to the innermost of its scopes that has
declared its name by then, and how far out that scope is can be counted
(`Use.distance?`).

A function may be called long after its body was passed over, when the scopes
around it have declared more. That makes no difference if none of the names in
the body is among those that would come between it and the scope that it belongs
to (`Use.Settled`).
-/
import Lox.Grammar.Program
import Lox.Proofs.Machine.Binding

set_option autoImplicit false

namespace Lox

/-! ## Scopes around a place -/

/-- A scope, as it looks from a place inside it: the names it has declared before
that place, those it declares in a statement behind it, and whether the place is
inside the body of a function that the scope is around. -/
structure Scope where
  before : List String
  behind : List String
  crossed : Bool
deriving DecidableEq, Repr

/-- The scopes around a place, innermost first. At the top of a program there are
none. -/
abbrev Nesting := List Scope

namespace Nesting

/-- Into a new scope with some names. -/
def enter (names : List String) (around : Nesting) : Nesting :=
  ⟨names, [], false⟩ :: around

/-- Past a declaration of some names. -/
def declare (names : List String) : Nesting → Nesting
  | [] => []
  | scope :: around => { scope with before := scope.before ++ names } :: around

/-- Into a statement behind which some names are declared. -/
def ahead (names : List String) : Nesting → Nesting
  | [] => []
  | scope :: around => { scope with behind := names } :: around

/-- Into the body of a function. -/
def cross (around : Nesting) : Nesting :=
  around.map fun scope => { scope with crossed := true }

/-- The scope of the receiver, which is around the body of a method. -/
def receiver (around : Nesting) : Nesting :=
  ⟨["this"], [], true⟩ :: around

/-- The scope of the superclass, which is around the methods of a class that has
one. -/
def superclass (around : Nesting) : Nesting :=
  ⟨["super"], [], true⟩ :: around

end Nesting

/-! ## Uses of variables -/

/-- A variable that is read or assigned to, with the scopes around it. -/
structure Use where
  name : Token
  scopes : Nesting

namespace Use

/-- The scope has declared the name. -/
def DeclaredIn (u : Use) (scope : Scope) : Prop :=
  u.name.lexeme ∈ scope.before

instance (u : Use) (scope : Scope) : Decidable (u.DeclaredIn scope) :=
  inferInstanceAs (Decidable (_ ∈ _))

/-- How many scopes stand between the variable and the innermost one that has
declared its name. For a global variable there is none. -/
def distance? (u : Use) : Option Nat :=
  u.scopes.findIdx? fun scope => u.DeclaredIn scope

/-- No scope around the body of a function, and inside the one that the variable
belongs to, declares the name behind that body. -/
def Settled (u : Use) : Prop :=
  ∀ scope ∈ u.scopes.takeWhile fun scope => ¬ u.DeclaredIn scope,
    scope.crossed = true → u.name.lexeme ∉ scope.behind

instance : DecidablePred Settled :=
  fun _ => inferInstanceAs (Decidable (∀ scope ∈ _, _))

end Use

mutual

/-- The variables of an expression, wherever they are read or assigned to. -/
def Expr.variables : Expr → List Token
  | .literal _ | .this _ | .super _ _ => []
  | .grouping inner => inner.variables
  | .unary _ operand => operand.variables
  | .binary left _ right | .logical left _ right => left.variables ++ right.variables
  | .variable name => [name]
  | .assign name value => name :: value.variables
  | .call callee _ args => callee.variables ++ Expr.variablesEach args
  | .get object _ => object.variables
  | .set object _ value => object.variables ++ value.variables

def Expr.variablesEach : List Expr → List Token
  | [] => []
  | expr :: rest => expr.variables ++ Expr.variablesEach rest

end

/-- The uses of variables in an expression. No scope begins inside one. -/
def Expr.uses (around : Nesting) (expr : Expr) : List Use :=
  expr.variables.map fun name => ⟨name, around⟩

/-- The scopes around the methods of a class: the name of the class is declared,
and if there is a superclass, `super` is. -/
def ClassDecl.around (decl : ClassDecl) (around : Nesting) : Nesting :=
  let outside := (around.declare [decl.name.lexeme]).cross
  if decl.superclass.isSome then outside.superclass else outside

mutual

/-- The uses of variables in a statement. A superclass is looked up before the
name of the class is declared, and no class is its own superclass. -/
def Stmt.uses (around : Nesting) : Stmt → List Use
  | .expression expr | .print expr => expr.uses around
  | .varDecl _ initializer => initializer.elim [] (Expr.uses around)
  | .block body => Stmt.usesEach (around.enter []) body
  | .ifElse condition thenBranch none => condition.uses around ++ thenBranch.uses around
  | .ifElse condition thenBranch (some elseBranch) =>
    condition.uses around ++ (thenBranch.uses around ++ elseBranch.uses around)
  | .whileLoop condition body => condition.uses around ++ body.uses around
  | .funDecl decl => decl.uses (around.declare [decl.name.lexeme]).cross
  | .returnStmt _ value => value.elim [] (Expr.uses around)
  | .classDecl ⟨name, superclass, methods⟩ =>
    superclass.elim [] (Expr.uses around) ++
      FunctionDecl.usesEach (ClassDecl.around ⟨name, superclass, methods⟩ around).receiver methods

/-- The uses of variables in statements after one another. What the later ones
declare is behind the earlier ones. -/
def Stmt.usesEach (around : Nesting) : List Stmt → List Use
  | [] => []
  | stmt :: rest =>
    stmt.uses (around.ahead (Stmt.declaredEach rest)) ++
      Stmt.usesEach (around.declare stmt.declared) rest

/-- The uses of variables in a function. Its parameters and its body are in one
scope. -/
def FunctionDecl.uses (around : Nesting) : FunctionDecl → List Use
  | ⟨_, params, body⟩ => Stmt.usesEach (around.enter (params.map Token.lexeme)) body

def FunctionDecl.usesEach (around : Nesting) : List FunctionDecl → List Use
  | [] => []
  | decl :: rest => decl.uses around ++ FunctionDecl.usesEach around rest

end

mutual

/-- Declarations stand in lists of statements: no branch of a conditional and no
body of a loop declares anything, and so on inside. -/
def Stmt.Contained : Stmt → Prop
  | .expression _ | .print _ | .varDecl _ _ | .returnStmt _ _ => True
  | .block body => Stmt.AllContained body
  | .ifElse _ thenBranch none => thenBranch.declared = [] ∧ thenBranch.Contained
  | .ifElse _ thenBranch (some elseBranch) =>
    (thenBranch.declared = [] ∧ thenBranch.Contained) ∧
      elseBranch.declared = [] ∧ elseBranch.Contained
  | .whileLoop _ body => body.declared = [] ∧ body.Contained
  | .funDecl decl => decl.Contained
  | .classDecl ⟨_, _, methods⟩ => FunctionDecl.AllContained methods

def Stmt.AllContained : List Stmt → Prop
  | [] => True
  | stmt :: rest => stmt.Contained ∧ Stmt.AllContained rest

def FunctionDecl.Contained : FunctionDecl → Prop
  | ⟨_, _, body⟩ => Stmt.AllContained body

def FunctionDecl.AllContained : List FunctionDecl → Prop
  | [] => True
  | decl :: rest => decl.Contained ∧ FunctionDecl.AllContained rest

end

/-- The uses of variables in a program. -/
def Program.uses (program : Program) : List Use :=
  Stmt.usesEach [] program.stmts

end Lox
