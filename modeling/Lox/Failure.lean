/-
`Lox.Failure` -- why a run ends early.

A failure ends the run at once. Most point at a token of the program; those that
come from outside, from a host function or from the output, point at none. The
text of each failure and its diagnostic follow from its cause.
-/
import Lox.Diagnostic
import Lox.Token

set_option autoImplicit false

namespace Lox

/-- What an operator has against its operands. -/
inductive OperandProblem where
  | notNumber
  | notNumbers
  | notNumbersOrStrings
  | unknownOperator
deriving DecidableEq, Repr

/-- The message for a problem with operands. -/
def OperandProblem.message : OperandProblem → String
  | notNumber => "Operand must be a number."
  | notNumbers => "Operands must be numbers."
  | notNumbersOrStrings => "Operands must be two numbers or two strings."
  | unknownOperator => "Unknown operator."

/-- What is done with a property. -/
inductive Access where
  | read
  | write
deriving DecidableEq, Repr

/-- What a property is called: only fields can be written. -/
def Access.word : Access → String
  | read => "properties"
  | write => "fields"

/-- A reason for a run to end early. -/
inductive Failure where
  | undefinedVariable (name : Token)
  | undefinedProperty (name : Token)
  | operand (op : Token) (problem : OperandProblem)
  | notCallable (paren : Token)
  | arity (paren : Token) (expected got : Nat)
  | notAnInstance (name : Token) (access : Access)
  | superclassNotClass (name : Token)
  /-- A host function reports a problem of its own. -/
  | host (name message : String)
  /-- The output takes no more. -/
  | output (problem : String)
deriving Repr

namespace Failure

/-- The message for a failure. -/
def message : Failure → String
  | undefinedVariable name => "Undefined variable '" ++ name.lexeme ++ "'."
  | undefinedProperty name => "Undefined property '" ++ name.lexeme ++ "'."
  | operand _ problem => problem.message
  | notCallable _ => "Can only call functions and classes."
  | arity _ expected got =>
    "Expected " ++ toString expected ++ " arguments but got " ++ toString got ++ "."
  | notAnInstance _ access => "Only instances have " ++ access.word ++ "."
  | superclassNotClass _ => "Superclass must be a class."
  | host name message => name ++ ": " ++ message
  | output problem => "failed to write output: " ++ problem

/-- The token that a failure points at. -/
def token? : Failure → Option Token
  | undefinedVariable name | undefinedProperty name | notAnInstance name _
  | superclassNotClass name => some name
  | operand op _ => some op
  | notCallable paren | arity paren _ _ => some paren
  | host _ _ | output _ => none

/-- The line that a failure points at. -/
def line? (f : Failure) : Option Nat :=
  f.token?.map Token.line

/-- The code of a failure that the program is to blame for. -/
def code? : Failure → Option Code
  | undefinedVariable _ => some .undefinedVariable
  | undefinedProperty _ => some .undefinedProperty
  | operand _ _ => some .operandType
  | notCallable _ => some .notCallable
  | arity _ _ _ => some .wrongArity
  | notAnInstance _ _ => some .notAnInstance
  | superclassNotClass _ => some .superclassNotClass
  | host _ _ | output _ => none

/-- The message, and on a line of its own the line of the program. -/
def report (f : Failure) : String :=
  match f.line? with
  | some line => f.message ++ "\n[line " ++ toString line ++ "]"
  | none => f.message

/-- The explanations of a failure: what its code describes, and for a wrong number
of arguments the two numbers. -/
def notes (f : Failure) : List String :=
  (f.code?.map Code.description).toList ++
    match f with
    | arity _ expected got =>
      ["the callee takes " ++ toString expected ++ " argument(s); this call passes "
        ++ toString got]
    | _ => []

/-- The diagnostic for a failure. -/
def diagnostic (f : Failure) : Diagnostic :=
  { stage := .running
    code := f.code?
    message := f.message
    span := f.token?.elim Span.nowhere Token.span
    location := f.token?.map Token.location
    labels := (f.token?.map fun t => ⟨t.span, "error occurred here"⟩).toList
    notes := f.notes
    help := f.code?.bind Code.suggestion? }

end Failure

end Lox
