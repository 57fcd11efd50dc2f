/-
`Lox.Tree` -- programs as trees.

A program is a list of statements. A tree keeps the tokens that a message may
have to point at: operators, names, the parenthesis that closes a call. The
trees are wider than the grammar: an operator may be any token, and a superclass
any expression, because trees can also be put together by hand.
-/
import Lox.Token

set_option autoImplicit false

namespace Lox

/-- The value of a literal expression. -/
inductive Constant where
  | nil
  | bool (value : Bool)
  | number (value : Float)
  | text (value : String)
deriving Repr

/-- The constant that the literal of a token denotes. -/
def Literal.toConstant : Literal → Constant
  | number x => .number x
  | text s => .text s

/-- An expression. -/
inductive Expr where
  | literal (value : Constant)
  | grouping (inner : Expr)
  | unary (op : Token) (operand : Expr)
  | binary (left : Expr) (op : Token) (right : Expr)
  /-- An operator that may leave its right side unevaluated. -/
  | logical (left : Expr) (op : Token) (right : Expr)
  | variable (name : Token)
  | assign (name : Token) (value : Expr)
  /-- A call; `paren` is the closing parenthesis. -/
  | call (callee : Expr) (paren : Token) (args : List Expr)
  | get (object : Expr) (name : Token)
  | set (object : Expr) (name : Token) (value : Expr)
  | this (keyword : Token)
  | super (keyword : Token) (method : Token)
deriving Repr

mutual

/-- A statement. -/
inductive Stmt where
  | expression (expr : Expr)
  | print (expr : Expr)
  | varDecl (name : Token) (initializer : Option Expr)
  | block (body : List Stmt)
  | ifElse (condition : Expr) (thenBranch : Stmt) (elseBranch : Option Stmt)
  | whileLoop (condition : Expr) (body : Stmt)
  | funDecl (decl : FunctionDecl)
  | returnStmt (keyword : Token) (value : Option Expr)
  | classDecl (decl : ClassDecl)

/-- A function or a method. -/
structure FunctionDecl where
  name : Token
  params : List Token
  body : List Stmt

/-- A class. -/
structure ClassDecl where
  name : Token
  superclass : Option Expr
  methods : List FunctionDecl

end

/-- A loop with clauses is no statement of its own: it stands for a block with
the initializer and a loop over a block with the body and the increment. A
missing condition holds always, and a missing clause leaves its block out. -/
def Stmt.forLoop (initializer : Option Stmt) (condition increment : Option Expr)
    (body : Stmt) : Stmt :=
  let round := match increment with
    | some step => .block [body, .expression step]
    | none => body
  let loop := .whileLoop (condition.getD (.literal (.bool true))) round
  match initializer with
  | some first => .block [first, loop]
  | none => loop

end Lox
