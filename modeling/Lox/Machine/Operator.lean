/-
`Lox.Machine.Operator` -- operators on values.

Arithmetic is that of 64-bit floating-point numbers, so dividing by zero gives
an infinite value or none at all, never a failure. A plus sign also joins two
strings. What an operator does depends on the kind of its token; a kind that is
no operator of the expression it stands in is a failure, which only a tree that
was put together by hand can meet.
-/
import Lox.Failure
import Lox.Value

set_option autoImplicit false

namespace Lox.Machine

/-- The value of an operator before one operand. -/
def unaryResult (op : Token) (operand : Value) : Except Failure Value :=
  match op.kind, operand with
  | .bang, v => .ok (.bool !v.isTruthy)
  | .minus, .number x => .ok (.number (-x))
  | .minus, _ => .error (.operand op .notNumber)
  | _, _ => .error (.operand op .unknownOperator)

/-- The result of a function of two numbers, for operands that are numbers. -/
def onNumbers (op : Token) (f : Float → Float → Value) (left right : Value) :
    Except Failure Value :=
  match left, right with
  | .number x, .number y => .ok (f x y)
  | _, _ => .error (.operand op .notNumbers)

/-- The sum of two numbers, or two strings one after the other. -/
def sumOrJoin (op : Token) (left right : Value) : Except Failure Value :=
  match left, right with
  | .number x, .number y => .ok (.number (x + y))
  | .text s, .text t => .ok (.text (s ++ t))
  | _, _ => .error (.operand op .notNumbersOrStrings)

/-- The value of an operator between two operands. -/
def binaryResult (op : Token) (left right : Value) : Except Failure Value :=
  match op.kind with
  | .plus => sumOrJoin op left right
  | .minus => onNumbers op (fun x y => .number (x - y)) left right
  | .star => onNumbers op (fun x y => .number (x * y)) left right
  | .slash => onNumbers op (fun x y => .number (x / y)) left right
  | .greater => onNumbers op (fun x y => .bool (decide (x > y))) left right
  | .greaterEqual => onNumbers op (fun x y => .bool (decide (x ≥ y))) left right
  | .less => onNumbers op (fun x y => .bool (decide (x < y))) left right
  | .lessEqual => onNumbers op (fun x y => .bool (decide (x ≤ y))) left right
  | .equalEqual => .ok (.bool (left.equals right))
  | .bangEqual => .ok (.bool !left.equals right)
  | _ => .error (.operand op .unknownOperator)

/-- Whether the left operand alone decides, for an operator that may leave its
right operand unevaluated. -/
def shortCircuits (op : Token) (left : Value) : Except Failure Bool :=
  match op.kind with
  | .kwOr => .ok left.isTruthy
  | .kwAnd => .ok !left.isTruthy
  | _ => .error (.operand op .unknownOperator)

end Lox.Machine
