/-
`Lox.Grammar.Statement` -- reading statements and declarations.

A declaration is where mistakes end: whatever does not fit inside it makes it
come out as nothing, and the reading resumes at the next boundary. All other
readers just pass a mistake on. As with expressions, each reader is given a
bound on its depth and hands a smaller one on.
-/
import Lox.Grammar.Expression

set_option autoImplicit false

namespace Lox.Grammar

/-! ## Statements without statements inside -/

/-- An expression and its semicolon. -/
def expressionStatement (fuel : Nat) : TokenReader Stmt := do
  let expr ← expression fuel
  let _ ← expect .expressionEnd
  return .expression expr

/-- What follows `print`. -/
def printStatement (fuel : Nat) : TokenReader Stmt := do
  let expr ← expression fuel
  let _ ← expect .printEnd
  return .print expr

/-- The expression before a token of a kind, which may be missing. -/
def expressionBefore (fuel : Nat) (kind : TokenKind) : TokenReader (Option Expr) := do
  if ← at? kind then return none
  else return some (← expression fuel)

/-- What follows `return`, which is complained about where no function is being
read. -/
def returnStatement (fuel : Nat) (keyword : Token) : TokenReader Stmt := do
  unless ← inFunction do
    complain .returnOutside keyword
  let value ← expressionBefore fuel .semicolon
  let _ ← expect .returnEnd
  return .returnStmt keyword value

/-- The value that a variable begins with, which may be missing. -/
def initialValue (fuel : Nat) : TokenReader (Option Expr) := do
  if ← skip? .equal then return some (← expression fuel)
  else return none

/-- What follows `var`. -/
def varDeclaration (fuel : Nat) : TokenReader Stmt := do
  let name ← expect .variableName
  let initializer ← initialValue fuel
  let _ ← expect .variableEnd
  return .varDecl name initializer

/-- The first clause of a loop with clauses, with its semicolon. -/
def initializerClause (fuel : Nat) : TokenReader (Option Stmt) := do
  if ← skip? .semicolon then return none
  else if ← skip? .kwVar then return some (← varDeclaration fuel)
  else return some (← expressionStatement fuel)

/-- One parameter and those after it, when `count` have been read. Each one
beyond the limit earns a complaint at its place. -/
def parameters (fuel : Nat) (count : Nat) : TokenReader (List Token) :=
  match fuel with
  | 0 => outOfFuel
  | fuel + 1 => do
    if count ≥ maxEntries then
      complainHere .tooManyParameters
    let name ← expect .parameterName
    if ← skip? .comma then
      return name :: (← parameters fuel (count + 1))
    else return [name]

/-- The parameters of a function, of which there may be none. -/
def parameterList (fuel : Nat) : TokenReader (List Token) := do
  if ← at? .rightParen then return []
  else parameters fuel 0

/-- What follows the name of a class, up to its body: the superclass, which is
complained about if it is the class itself. -/
def superclassClause (name : Token) : TokenReader (Option Expr) := do
  if ← skip? .less then
    let parent ← expect .superclassName
    if parent.lexeme == name.lexeme then
      complain .selfInheritance parent
    return some (.variable parent)
  else return none

/-! ## Statements with statements inside -/

/-- The declarations that are no statements, by their first token. -/
inductive Declarator where
  | classDecl
  | funDecl
  | varDecl
deriving DecidableEq, Repr

/-- What a token of a kind declares. -/
def Declarator.ofKind? : TokenKind → Option Declarator
  | .kwClass => some .classDecl
  | .kwFun => some .funDecl
  | .kwVar => some .varDecl
  | _ => none

/-- The statements that are known by their first token. -/
inductive Lead where
  | forLoop
  | ifElse
  | print
  | returnStmt
  | whileLoop
  | block
deriving DecidableEq, Repr

/-- What a token of a kind begins. -/
def Lead.ofKind? : TokenKind → Option Lead
  | .kwFor => some .forLoop
  | .kwIf => some .ifElse
  | .kwPrint => some .print
  | .kwReturn => some .returnStmt
  | .kwWhile => some .whileLoop
  | .leftBrace => some .block
  | _ => none

mutual

/-- A declaration or a statement, or nothing if the tokens do not fit. -/
def declaration (fuel : Nat) : TokenReader (Option Stmt) :=
  match fuel with
  | 0 => outOfFuel
  | fuel + 1 => recovering (strictDeclaration fuel)

/-- A declaration or a statement. -/
def strictDeclaration (fuel : Nat) : TokenReader Stmt :=
  match fuel with
  | 0 => outOfFuel
  | fuel + 1 => do
    match ← take Declarator.ofKind? with
    | some (_, .classDecl) => classDeclaration fuel
    | some (_, .funDecl) => return .funDecl (← callable fuel .function)
    | some (_, .varDecl) => varDeclaration fuel
    | none => statement fuel

/-- The declarations before a closing brace or the end. -/
def declarations (fuel : Nat) : TokenReader (List Stmt) :=
  match fuel with
  | 0 => outOfFuel
  | fuel + 1 => do
    if ← nextIs (· != .rightBrace) then
      let stmt ← declaration fuel
      return stmt.toList ++ (← declarations fuel)
    else return []

/-- What follows the opening brace of a block. -/
def block (fuel : Nat) : TokenReader (List Stmt) :=
  match fuel with
  | 0 => outOfFuel
  | fuel + 1 => do
    let body ← declarations fuel
    let _ ← expect .blockClose
    return body

/-- A function from its name on; of `sort` depend only the words of complaints. -/
def callable (fuel : Nat) (sort : Callable) : TokenReader FunctionDecl :=
  match fuel with
  | 0 => outOfFuel
  | fuel + 1 => do
    let name ← expect (.callableName sort)
    let _ ← expect (.parametersOpen sort)
    let params ← parameterList fuel
    let _ ← expect .parametersClose
    let _ ← expect (.bodyOpen sort)
    let body ← insideBody (block fuel)
    return ⟨name, params, body⟩

/-- The methods before the closing brace of a class, or the end. -/
def methods (fuel : Nat) : TokenReader (List FunctionDecl) :=
  match fuel with
  | 0 => outOfFuel
  | fuel + 1 => do
    if ← nextIs (· != .rightBrace) then
      let method ← callable fuel .method
      return method :: (← methods fuel)
    else return []

/-- What follows `class`. -/
def classDeclaration (fuel : Nat) : TokenReader Stmt :=
  match fuel with
  | 0 => outOfFuel
  | fuel + 1 => do
    let name ← expect .className
    let superclass ← superclassClause name
    let _ ← expect .classOpen
    let members ← methods fuel
    let _ ← expect .classClose
    return .classDecl ⟨name, superclass, members⟩

/-- A statement that declares nothing in the block around it. -/
def statement (fuel : Nat) : TokenReader Stmt :=
  match fuel with
  | 0 => outOfFuel
  | fuel + 1 => do
    match ← take Lead.ofKind? with
    | some (_, .forLoop) => forStatement fuel
    | some (_, .ifElse) => ifStatement fuel
    | some (_, .print) => printStatement fuel
    | some (keyword, .returnStmt) => returnStatement fuel keyword
    | some (_, .whileLoop) => whileStatement fuel
    | some (_, .block) => return .block (← block fuel)
    | none => expressionStatement fuel

/-- What follows `for`. -/
def forStatement (fuel : Nat) : TokenReader Stmt :=
  match fuel with
  | 0 => outOfFuel
  | fuel + 1 => do
    let _ ← expect .forOpen
    let initializer ← initializerClause fuel
    let condition ← expressionBefore fuel .semicolon
    let _ ← expect .forConditionEnd
    let increment ← expressionBefore fuel .rightParen
    let _ ← expect .forClose
    let body ← statement fuel
    return .forLoop initializer condition increment body

/-- What follows `if`. An `else` belongs to the nearest `if` before it. -/
def ifStatement (fuel : Nat) : TokenReader Stmt :=
  match fuel with
  | 0 => outOfFuel
  | fuel + 1 => do
    let _ ← expect .ifOpen
    let condition ← expression fuel
    let _ ← expect .ifClose
    let thenBranch ← statement fuel
    let elseBranch ← if ← skip? .kwElse then some <$> statement fuel else pure none
    return .ifElse condition thenBranch elseBranch

/-- What follows `while`. -/
def whileStatement (fuel : Nat) : TokenReader Stmt :=
  match fuel with
  | 0 => outOfFuel
  | fuel + 1 => do
    let _ ← expect .whileOpen
    let condition ← expression fuel
    let _ ← expect .whileClose
    let body ← statement fuel
    return .whileLoop condition body

end

end Lox.Grammar
