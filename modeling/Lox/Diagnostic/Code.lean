/-
`Lox.Diagnostic.Code` -- the catalogue of what can be wrong with a program.

Every diagnostic that a program can earn has a code, and the code fixes three
texts: the identifier shown in brackets, a description of the mistake as such,
and for some a suggestion how to mend it. The first digit after the zero tells
the stage: 0 for the text, 1 for the grammar, 3 for the run.
-/

set_option autoImplicit false

namespace Lox

/-- A kind of mistake. -/
inductive Code where
  | unexpectedCharacter
  | unterminatedString
  | unexpectedToken
  | expectedExpression
  | missingSemicolon
  | invalidAssignmentTarget
  | tooManyArguments
  | topLevelReturn
  | selfInheritance
  | undefinedVariable
  | undefinedProperty
  | operandType
  | notCallable
  | wrongArity
  | notAnInstance
  | superclassNotClass
deriving DecidableEq, Repr

namespace Code

/-- The identifier of a code. -/
def text : Code → String
  | unexpectedCharacter => "E0001"
  | unterminatedString => "E0002"
  | unexpectedToken => "E0100"
  | expectedExpression => "E0101"
  | missingSemicolon => "E0102"
  | invalidAssignmentTarget => "E0103"
  | tooManyArguments => "E0104"
  | topLevelReturn => "E0105"
  | selfInheritance => "E0106"
  | undefinedVariable => "E0300"
  | undefinedProperty => "E0301"
  | operandType => "E0302"
  | notCallable => "E0303"
  | wrongArity => "E0304"
  | notAnInstance => "E0305"
  | superclassNotClass => "E0306"

/-- The mistake in a few words, whatever the program. -/
def description : Code → String
  | unexpectedCharacter => "unexpected character in input"
  | unterminatedString => "string literal is not terminated"
  | unexpectedToken => "unexpected token"
  | expectedExpression => "expected an expression"
  | missingSemicolon => "missing semicolon"
  | invalidAssignmentTarget => "left-hand side cannot be assigned to"
  | tooManyArguments => "more than 255 arguments or parameters"
  | topLevelReturn => "`return` outside of a function"
  | selfInheritance => "class inherits from itself"
  | undefinedVariable => "cannot find variable in any enclosing scope"
  | undefinedProperty => "instance has no such field or method"
  | operandType => "operator cannot be applied to these operands"
  | notCallable => "value is not a function or class"
  | wrongArity => "wrong number of arguments"
  | notAnInstance => "only instances have properties"
  | superclassNotClass => "superclass is not a class"

/-- How to mend the mistake, where there is one way to do it. -/
def suggestion? : Code → Option String
  | unterminatedString => some "add a closing quote `\"` to terminate the string"
  | missingSemicolon => some "add `;` at the end of the statement"
  | undefinedVariable => some "declare the variable with `var` before using or assigning it"
  | wrongArity => some "check the function declaration for the expected number of arguments"
  | invalidAssignmentTarget => some "only variables and instance fields can be assigned"
  | _ => none

end Code

end Lox
