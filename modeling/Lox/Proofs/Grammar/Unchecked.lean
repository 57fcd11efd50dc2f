/-
`Lox.Proofs.Grammar.Unchecked` -- the grammar without its checks.

Four things are checked in passing while a program is read: that a list has not too many
entries, that a `return` stands in a function, that a class does not inherit from itself,
and that the target of an assignment is one. A check makes a complaint, and that should be
all it does. Here are the readers without them. An entry is read whichever it is, an
assignment to a wrong target is dropped without a word, and nothing counts the bodies of
functions.

Instead each reader is told in which bodies it is used, by those who call it, and a record
is kept of the return statements that are begun, with the bodies around them. The record is
written and never looked at, and it stays as it is when a declaration is given up. So a
`return` that is outside of every body is known without the counter of the readers that check.
-/
import Lox.Grammar.Program

set_option autoImplicit false

namespace Lox.Grammar.Unchecked

/-! ## Readers with a record -/

/-- A return statement was begun with this keyword. The functions and methods in whose bodies
it stands are given by their names, innermost first. -/
structure Begun where
  keyword : Token
  around : List Token

/-- How far the reading has come, and the return statements that were begun. -/
structure Progress where
  cursor : Cursor
  begun : Array Begun

/-- A reader that keeps the record. -/
abbrev Recorder := EStateM Halt Progress

section Steps

variable {α : Type}

/-- A reader of tokens that begins no statement. -/
def plain (read : TokenReader α) : Recorder α := fun p =>
  match read.run p.cursor with
  | .ok a c => .ok a { p with cursor := c }
  | .error halt c => .error halt { p with cursor := c }

instance : MonadLift TokenReader Recorder := ⟨plain⟩

/-- Records that a return statement is begun. -/
def begins (keyword : Token) (around : List Token) : Recorder Unit :=
  modify fun p => { p with begun := p.begun.push ⟨keyword, around⟩ }

/-- Reads a declaration; if the reader gives up, resumes at the next boundary
without it. -/
def recovering (read : Recorder α) : Recorder (Option α) := fun p =>
  match read p with
  | .ok a p => .ok (some a) p
  | .error .givenUp p =>
    .ok none { p with cursor := { p.cursor with rest := Step.resume p.cursor.rest } }
  | .error .outOfFuel p => .error .outOfFuel p

end Steps

/-! ## Expressions -/

mutual

/-- An expression. What cannot be assigned to is kept, and the value dropped. -/
def expression (fuel : Nat) : Recorder Expr :=
  match fuel with
  | 0 => throw .outOfFuel
  | fuel + 1 => do
    let left ← binary fuel .or
    match ← take? .equal with
    | none => return left
    | some _ =>
      let value ← expression fuel
      return (assignment? left value).getD left

/-- An expression of a level. -/
def binary (fuel : Nat) (level : Level) : Recorder Expr :=
  match fuel with
  | 0 => throw .outOfFuel
  | fuel + 1 => do
    let left ← operand fuel level
    binaryRest fuel level left

/-- What follows the operand `left` on its level. -/
def binaryRest (fuel : Nat) (level : Level) (left : Expr) : Recorder Expr :=
  match fuel with
  | 0 => throw .outOfFuel
  | fuel + 1 => do
    match ← takeIf level.has with
    | some op =>
      let right ← operand fuel level
      binaryRest fuel level (level.join left op right)
    | none => return left

/-- An operand of a level. -/
def operand (fuel : Nat) (level : Level) : Recorder Expr :=
  match fuel with
  | 0 => throw .outOfFuel
  | fuel + 1 =>
    match level.tighter? with
    | some level => binary fuel level
    | none => unary fuel

/-- An expression behind any number of signs. -/
def unary (fuel : Nat) : Recorder Expr :=
  match fuel with
  | 0 => throw .outOfFuel
  | fuel + 1 => do
    match ← takeIf isSign with
    | some op => return .unary op (← unary fuel)
    | none =>
      let callee ← primary fuel
      postfixes fuel callee

/-- The calls and property accesses that follow `left`. -/
def postfixes (fuel : Nat) (left : Expr) : Recorder Expr :=
  match fuel with
  | 0 => throw .outOfFuel
  | fuel + 1 => do
    if ← skip? .leftParen then
      let args ← argumentList fuel
      let paren ← expect .argumentsClose
      postfixes fuel (.call left paren args)
    else if ← skip? .dot then
      let name ← expect .propertyName
      postfixes fuel (.get left name)
    else return left

/-- The arguments of a call. -/
def argumentList (fuel : Nat) : Recorder (List Expr) :=
  match fuel with
  | 0 => throw .outOfFuel
  | fuel + 1 => do
    if ← at? .rightParen then return []
    else arguments fuel

/-- One argument and those after it, however many there are. -/
def arguments (fuel : Nat) : Recorder (List Expr) :=
  match fuel with
  | 0 => throw .outOfFuel
  | fuel + 1 => do
    let arg ← expression fuel
    if ← skip? .comma then
      return arg :: (← arguments fuel)
    else return [arg]

/-- An expression without operators. -/
def primary (fuel : Nat) : Recorder Expr :=
  match fuel with
  | 0 => throw .outOfFuel
  | fuel + 1 => do
    match ← takeLiteral with
    | some literal => return .literal literal.toConstant
    | none =>
      match ← take Opening.ofKind? with
      | some (_, .constant value) => return .literal value
      | some (keyword, .super) =>
        let _ ← expect .superDot
        return .super keyword (← expect .superMethod)
      | some (keyword, .this) => return .this keyword
      | some (name, .name) => return .variable name
      | some (_, .group) =>
        let inner ← expression fuel
        let _ ← expect .groupClose
        return .grouping inner
      | none => plain (giveUpHere .noExpression)

end

/-! ## Statements without statements inside -/

/-- An expression and its semicolon. -/
def expressionStatement (fuel : Nat) : Recorder Stmt := do
  let expr ← expression fuel
  let _ ← expect .expressionEnd
  return .expression expr

/-- What follows `print`. -/
def printStatement (fuel : Nat) : Recorder Stmt := do
  let expr ← expression fuel
  let _ ← expect .printEnd
  return .print expr

/-- The expression before a token of a kind, which may be missing. -/
def expressionBefore (fuel : Nat) (kind : TokenKind) : Recorder (Option Expr) := do
  if ← at? kind then return none
  else return some (← expression fuel)

/-- What follows `return`, wherever it stands. -/
def returnStatement (fuel : Nat) (around : List Token) (keyword : Token) : Recorder Stmt := do
  begins keyword around
  let value ← expressionBefore fuel .semicolon
  let _ ← expect .returnEnd
  return .returnStmt keyword value

/-- The value that a variable begins with, which may be missing. -/
def initialValue (fuel : Nat) : Recorder (Option Expr) := do
  if ← skip? .equal then return some (← expression fuel)
  else return none

/-- What follows `var`. -/
def varDeclaration (fuel : Nat) : Recorder Stmt := do
  let name ← expect .variableName
  let initializer ← initialValue fuel
  let _ ← expect .variableEnd
  return .varDecl name initializer

/-- The first clause of a loop with clauses, with its semicolon. -/
def initializerClause (fuel : Nat) : Recorder (Option Stmt) := do
  if ← skip? .semicolon then return none
  else if ← skip? .kwVar then return some (← varDeclaration fuel)
  else return some (← expressionStatement fuel)

/-- One parameter and those after it, however many there are. -/
def parameters (fuel : Nat) : Recorder (List Token) :=
  match fuel with
  | 0 => throw .outOfFuel
  | fuel + 1 => do
    let name ← expect .parameterName
    if ← skip? .comma then
      return name :: (← parameters fuel)
    else return [name]

/-- The parameters of a function. -/
def parameterList (fuel : Nat) : Recorder (List Token) := do
  if ← at? .rightParen then return []
  else parameters fuel

/-- What follows the name of a class, up to its body. The superclass may be any name. -/
def superclassClause : Recorder (Option Expr) := do
  if ← skip? .less then
    let parent ← expect .superclassName
    return some (.variable parent)
  else return none

/-! ## Statements with statements inside -/

mutual

/-- A declaration or a statement, or nothing if the tokens do not fit. -/
def declaration (fuel : Nat) (around : List Token) : Recorder (Option Stmt) :=
  match fuel with
  | 0 => throw .outOfFuel
  | fuel + 1 => recovering (strictDeclaration fuel around)

/-- A declaration or a statement. -/
def strictDeclaration (fuel : Nat) (around : List Token) : Recorder Stmt :=
  match fuel with
  | 0 => throw .outOfFuel
  | fuel + 1 => do
    match ← take Declarator.ofKind? with
    | some (_, .classDecl) => classDeclaration fuel around
    | some (_, .funDecl) => return .funDecl (← callable fuel around .function)
    | some (_, .varDecl) => varDeclaration fuel
    | none => statement fuel around

/-- The declarations before a closing brace or the end. -/
def declarations (fuel : Nat) (around : List Token) : Recorder (List Stmt) :=
  match fuel with
  | 0 => throw .outOfFuel
  | fuel + 1 => do
    if ← nextIs (· != .rightBrace) then
      let stmt ← declaration fuel around
      return stmt.toList ++ (← declarations fuel around)
    else return []

/-- What follows the opening brace of a block. -/
def block (fuel : Nat) (around : List Token) : Recorder (List Stmt) :=
  match fuel with
  | 0 => throw .outOfFuel
  | fuel + 1 => do
    let body ← declarations fuel around
    let _ ← expect .blockClose
    return body

/-- A function from its name on. The readers of its body are told that they are in it. -/
def callable (fuel : Nat) (around : List Token) (sort : Callable) : Recorder FunctionDecl :=
  match fuel with
  | 0 => throw .outOfFuel
  | fuel + 1 => do
    let name ← expect (.callableName sort)
    let _ ← expect (.parametersOpen sort)
    let params ← parameterList fuel
    let _ ← expect .parametersClose
    let _ ← expect (.bodyOpen sort)
    let body ← block fuel (name :: around)
    return ⟨name, params, body⟩

/-- The methods before the closing brace of a class, or the end. -/
def methods (fuel : Nat) (around : List Token) : Recorder (List FunctionDecl) :=
  match fuel with
  | 0 => throw .outOfFuel
  | fuel + 1 => do
    if ← nextIs (· != .rightBrace) then
      let method ← callable fuel around .method
      return method :: (← methods fuel around)
    else return []

/-- What follows `class`. -/
def classDeclaration (fuel : Nat) (around : List Token) : Recorder Stmt :=
  match fuel with
  | 0 => throw .outOfFuel
  | fuel + 1 => do
    let name ← expect .className
    let superclass ← superclassClause
    let _ ← expect .classOpen
    let members ← methods fuel around
    let _ ← expect .classClose
    return .classDecl ⟨name, superclass, members⟩

/-- A statement that declares nothing in the block around it. -/
def statement (fuel : Nat) (around : List Token) : Recorder Stmt :=
  match fuel with
  | 0 => throw .outOfFuel
  | fuel + 1 => do
    match ← take Lead.ofKind? with
    | some (_, .forLoop) => forStatement fuel around
    | some (_, .ifElse) => ifStatement fuel around
    | some (_, .print) => printStatement fuel
    | some (keyword, .returnStmt) => returnStatement fuel around keyword
    | some (_, .whileLoop) => whileStatement fuel around
    | some (_, .block) => return .block (← block fuel around)
    | none => expressionStatement fuel

/-- What follows `for`. -/
def forStatement (fuel : Nat) (around : List Token) : Recorder Stmt :=
  match fuel with
  | 0 => throw .outOfFuel
  | fuel + 1 => do
    let _ ← expect .forOpen
    let initializer ← initializerClause fuel
    let condition ← expressionBefore fuel .semicolon
    let _ ← expect .forConditionEnd
    let increment ← expressionBefore fuel .rightParen
    let _ ← expect .forClose
    let body ← statement fuel around
    return .forLoop initializer condition increment body

/-- What follows `if`. -/
def ifStatement (fuel : Nat) (around : List Token) : Recorder Stmt :=
  match fuel with
  | 0 => throw .outOfFuel
  | fuel + 1 => do
    let _ ← expect .ifOpen
    let condition ← expression fuel
    let _ ← expect .ifClose
    let thenBranch ← statement fuel around
    let elseBranch ← if ← skip? .kwElse then some <$> statement fuel around else pure none
    return .ifElse condition thenBranch elseBranch

/-- What follows `while`. -/
def whileStatement (fuel : Nat) (around : List Token) : Recorder Stmt :=
  match fuel with
  | 0 => throw .outOfFuel
  | fuel + 1 => do
    let _ ← expect .whileOpen
    let condition ← expression fuel
    let _ ← expect .whileClose
    let body ← statement fuel around
    return .whileLoop condition body

end

/-! ## Programs -/

/-- The declarations up to the end of the tokens. They are in no body. -/
def program (fuel : Nat) : Recorder (List Stmt) :=
  match fuel with
  | 0 => throw .outOfFuel
  | fuel + 1 => do
    if ← nextIs fun _ => true then
      let stmt ← declaration fuel []
      return stmt.toList ++ (← program fuel)
    else return []

/-- What was made of a list of tokens without checking anything in passing, and the return
statements that were begun, in order. -/
structure Reading where
  program : List Stmt
  complaints : List Complaint
  begun : List Begun

/-- The reading of a list of tokens. -/
def read (tokens : List Token) : Reading :=
  let start := Cursor.start tokens
  match program (fuelFor start.rest.length) ⟨start, #[]⟩ with
  | .ok stmts p => ⟨stmts, p.cursor.complaints.toList, p.begun.toList⟩
  | .error _ p => ⟨[], p.cursor.complaints.toList, p.begun.toList⟩

end Lox.Grammar.Unchecked
