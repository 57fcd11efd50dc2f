/-
`Lox.Tree.Render` -- trees as text, for readers of trees.

Every node is written in parentheses with its operator or keyword first, so the
text shows how a program was grouped: `1 + 2 * 3` is `(+ 1 (* 2 3))`. Names and
operators appear as they were written, strings between quotes and without
escapes. A part that may be missing is just left out.
-/
import Lox.Decimal.Numeral
import Lox.Tree

set_option autoImplicit false

namespace Lox

/-! ## Expressions -/

/-- A constant as text. -/
def Constant.render : Constant → String
  | nil => "nil"
  | bool b => if b then "true" else "false"
  | number x => Decimal.numberText x
  | text s => "\"" ++ s ++ "\""

mutual

/-- An expression as text. -/
def Expr.render : Expr → String
  | .literal value => value.render
  | .grouping inner => "(group " ++ inner.render ++ ")"
  | .unary op operand => "(" ++ op.lexeme ++ " " ++ operand.render ++ ")"
  | .binary left op right =>
    "(" ++ op.lexeme ++ " " ++ left.render ++ " " ++ right.render ++ ")"
  | .logical left op right =>
    "(" ++ op.lexeme ++ " " ++ left.render ++ " " ++ right.render ++ ")"
  | .variable name => name.lexeme
  | .assign name value => "(= " ++ name.lexeme ++ " " ++ value.render ++ ")"
  | .call callee _ args => "(call " ++ callee.render ++ Expr.renderEach args ++ ")"
  | .get object name => "(. " ++ object.render ++ " " ++ name.lexeme ++ ")"
  | .set object name value =>
    "(= (. " ++ object.render ++ " " ++ name.lexeme ++ ") " ++ value.render ++ ")"
  | .this _ => "this"
  | .super _ method => "(super " ++ method.lexeme ++ ")"

/-- Some expressions as text, each behind a space. -/
def Expr.renderEach : List Expr → String
  | [] => ""
  | expr :: rest => " " ++ expr.render ++ Expr.renderEach rest

end

/-- An expression that may be missing, behind a space. -/
def Expr.renderOption : Option Expr → String
  | none => ""
  | some expr => " " ++ expr.render

/-! ## Statements -/

mutual

/-- A statement as text. -/
def Stmt.render : Stmt → String
  | .expression expr => "(expr " ++ expr.render ++ ")"
  | .print expr => "(print " ++ expr.render ++ ")"
  | .varDecl name initializer =>
    "(var " ++ name.lexeme ++ Expr.renderOption initializer ++ ")"
  | .block body => "(block" ++ Stmt.renderEach body ++ ")"
  | .ifElse condition thenBranch none =>
    "(if " ++ condition.render ++ " " ++ thenBranch.render ++ ")"
  | .ifElse condition thenBranch (some elseBranch) =>
    "(if " ++ condition.render ++ " " ++ thenBranch.render ++ " " ++ elseBranch.render ++ ")"
  | .whileLoop condition body => "(while " ++ condition.render ++ " " ++ body.render ++ ")"
  | .funDecl decl => decl.render
  | .returnStmt _ value => "(return" ++ Expr.renderOption value ++ ")"
  | .classDecl decl => decl.render

/-- Some statements as text, each behind a space. -/
def Stmt.renderEach : List Stmt → String
  | [] => ""
  | stmt :: rest => " " ++ stmt.render ++ Stmt.renderEach rest

/-- A function or a method as text. -/
def FunctionDecl.render : FunctionDecl → String
  | ⟨name, params, body⟩ =>
    "(fun " ++ name.lexeme ++ " (" ++ String.intercalate " " (params.map Token.lexeme) ++ ")"
      ++ Stmt.renderEach body ++ ")"

/-- Some methods as text, each behind a space. -/
def FunctionDecl.renderEach : List FunctionDecl → String
  | [] => ""
  | decl :: rest => " " ++ decl.render ++ FunctionDecl.renderEach rest

/-- A class as text; a less-than sign stands before the superclass. -/
def ClassDecl.render : ClassDecl → String
  | ⟨name, superclass, methods⟩ =>
    "(class " ++ name.lexeme
      ++ (match superclass with
        | some expr => " < " ++ expr.render
        | none => "")
      ++ FunctionDecl.renderEach methods ++ ")"

end

/-- A program as text, one line for each statement at its top. -/
def Stmt.renderProgram (program : List Stmt) : String :=
  String.join (program.map fun stmt => stmt.render ++ "\n")

end Lox
