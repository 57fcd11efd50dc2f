/-
`Lox.Grammar.Complaint` -- what can be wrong with a list of tokens.

Most of the grammar's demands are of one form: at a certain slot a certain kind
of token has to stand. The slots are listed here, each with the kind it asks for
and the words for it, so that the text of a complaint and its code follow from
the slot. The other demands have causes of their own.

A structural complaint means that the declaration in hand was given up. The
others are made in passing, and the reading goes on.
-/
import Lox.Diagnostic
import Lox.Token

set_option autoImplicit false

namespace Lox.Grammar

/-! ## Slots -/

/-- The two sorts of declarations that have parameters and a body. -/
inductive Callable where
  | function
  | method
deriving DecidableEq, Repr

/-- The word for a sort. -/
def Callable.word : Callable → String
  | function => "function"
  | method => "method"

/-- The places at which one kind of token has to stand. -/
inductive Slot where
  | className | superclassName | classOpen | classClose
  | callableName (sort : Callable) | parametersOpen (sort : Callable)
  | parameterName | parametersClose | bodyOpen (sort : Callable)
  | variableName | variableEnd
  | forOpen | forConditionEnd | forClose
  | ifOpen | ifClose | whileOpen | whileClose
  | printEnd | returnEnd | expressionEnd | blockClose
  | propertyName | argumentsClose | groupClose | superDot | superMethod
deriving DecidableEq, Repr

namespace Slot

/-- The kind of token that has to stand there. -/
def kind : Slot → TokenKind
  | className | superclassName | callableName _ | parameterName | variableName
  | propertyName | superMethod => .identifier
  | classOpen | bodyOpen _ => .leftBrace
  | classClose | blockClose => .rightBrace
  | parametersOpen _ | forOpen | ifOpen | whileOpen => .leftParen
  | parametersClose | forClose | ifClose | whileClose | argumentsClose | groupClose =>
    .rightParen
  | variableEnd | forConditionEnd | printEnd | returnEnd | expressionEnd => .semicolon
  | superDot => .dot

/-- What has to stand there, in words. -/
def phrase : Slot → String
  | className => "class name"
  | superclassName => "superclass name"
  | classOpen => "'\x7b' before class body"
  | classClose => "'\x7d' after class body"
  | callableName sort => sort.word ++ " name"
  | parametersOpen sort => "'(' after " ++ sort.word ++ " name"
  | parameterName => "parameter name"
  | parametersClose => "')' after parameters"
  | bodyOpen sort => "'\x7b' before " ++ sort.word ++ " body"
  | variableName => "variable name"
  | variableEnd => "';' after variable declaration"
  | forOpen => "'(' after 'for'"
  | forConditionEnd => "';' after loop condition"
  | forClose => "')' after for clauses"
  | ifOpen => "'(' after 'if'"
  | ifClose => "')' after if condition"
  | whileOpen => "'(' after 'while'"
  | whileClose => "')' after condition"
  | printEnd => "';' after value"
  | returnEnd => "';' after return value"
  | expressionEnd => "';' after expression"
  | blockClose => "'\x7d' after block"
  | propertyName => "property name after '.'"
  | argumentsClose => "')' after arguments"
  | groupClose => "')' after expression"
  | superDot => "'.' after 'super'"
  | superMethod => "superclass method name"

end Slot

/-! ## Causes -/

/-- The reasons for complaint. -/
inductive Cause where
  /-- Another kind of token stands at a slot. -/
  | missing (slot : Slot)
  /-- No expression begins here. -/
  | noExpression
  /-- A number or string token does not say what it denotes. -/
  | noLiteral
  | tooManyParameters
  | tooManyArguments
  | returnOutside
  | selfInheritance
  | assignmentTarget
deriving DecidableEq, Repr

namespace Cause

/-- Whether the declaration in hand is given up. -/
def isStructural : Cause → Bool
  | missing _ | noExpression | noLiteral => true
  | _ => false

/-- The message for a cause. -/
def message : Cause → String
  | missing slot => "Expect " ++ slot.phrase ++ "."
  | noExpression => "Expect expression."
  | noLiteral => "Expect literal value."
  | tooManyParameters => "Can't have more than 255 parameters."
  | tooManyArguments => "Can't have more than 255 arguments."
  | returnOutside => "Can't return from top-level code."
  | selfInheritance => "A class can't inherit from itself."
  | assignmentTarget => "Invalid assignment target."

/-- The code for a cause. A missing semicolon has a code of its own. -/
def code : Cause → Code
  | missing slot => if slot.kind = .semicolon then .missingSemicolon else .unexpectedToken
  | noExpression => .expectedExpression
  | noLiteral => .unexpectedToken
  | tooManyParameters | tooManyArguments => .tooManyArguments
  | returnOutside => .topLevelReturn
  | selfInheritance => .selfInheritance
  | assignmentTarget => .invalidAssignmentTarget

/-- The code for a missing token says no more than that. -/
theorem code_missing (slot : Slot) :
    (missing slot).code = .missingSemicolon ∨ (missing slot).code = .unexpectedToken := by
  by_cases h : slot.kind = .semicolon
  · exact .inl (if_pos h)
  · exact .inr (if_neg h)

end Cause

/-! ## Complaints -/

/-- A cause, and the token at which it was found. -/
structure Complaint where
  cause : Cause
  token : Token
deriving Repr

namespace Complaint

/-- The label that points at the token. -/
def label (c : Complaint) : String :=
  if c.token.kind = .eof then "end of input" else "here"

/-- The diagnostic for a complaint. -/
def diagnostic (c : Complaint) : Diagnostic :=
  (((Diagnostic.bare .parsing c.token.span c.cause.message).withCode c.cause.code).withLocation
    c.token.location).withLabel c.token.span c.label

end Complaint

end Lox.Grammar
