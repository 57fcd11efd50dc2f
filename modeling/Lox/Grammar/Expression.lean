/-
`Lox.Grammar.Expression` -- reading expressions.

The binary operators have six levels of precedence, which differ only in their
operators, so one reader serves all of them: an operand, then as long as an
operator of the level follows, that operator and another operand. An operand is
an expression of the next tighter level, and below the tightest a unary one.

An assignment is read as if its target were any expression; only when the equals
sign shows up is the target looked at. Each reader is given a bound on its depth
and hands a smaller one on.
-/
import Lox.Grammar.Cursor
import Lox.Tree

set_option autoImplicit false

namespace Lox.Grammar

/-! ## Levels of precedence -/

/-- The levels of the binary operators, loosest first. -/
inductive Level where
  | or | and | equality | comparison | sum | product
deriving DecidableEq, Repr

namespace Level

/-- Whether a token is an operator of the level. -/
def has : Level → TokenKind → Bool
  | or, .kwOr => true
  | and, .kwAnd => true
  | equality, .equalEqual | equality, .bangEqual => true
  | comparison, .less | comparison, .lessEqual | comparison, .greater
  | comparison, .greaterEqual => true
  | sum, .plus | sum, .minus => true
  | product, .star | product, .slash => true
  | _, _ => false

/-- The next tighter level, if there is one. -/
def tighter? : Level → Option Level
  | or => some and
  | and => some equality
  | equality => some comparison
  | comparison => some sum
  | sum => some product
  | product => none

/-- The expression of two operands and an operator of the level. -/
def join (level : Level) (left : Expr) (op : Token) (right : Expr) : Expr :=
  match level with
  | or | and => .logical left op right
  | _ => .binary left op right

end Level

/-! ## Expressions -/

/-- Whether a token is a sign that stands before its operand. -/
def isSign : TokenKind → Bool
  | .bang | .minus => true
  | _ => false

/-- What an expression without operators can begin with, literals apart. -/
inductive Opening where
  | constant (value : Constant)
  | super
  | this
  | name
  | group
deriving Repr

/-- What a token of a kind begins. -/
def Opening.ofKind? : TokenKind → Option Opening
  | .kwFalse => some (.constant (.bool false))
  | .kwTrue => some (.constant (.bool true))
  | .kwNil => some (.constant .nil)
  | .kwSuper => some .super
  | .kwThis => some .this
  | .identifier => some .name
  | .leftParen => some .group
  | _ => none

/-- The most arguments or parameters that earn no complaint. -/
def maxEntries : Nat := 255

/-- The assignment of a value to an expression, if it can be assigned to. -/
def assignment? (target value : Expr) : Option Expr :=
  match target with
  | .variable name => some (.assign name value)
  | .get object name => some (.set object name value)
  | _ => none

mutual

/-- An expression: an assignment, or an expression of the loosest level. A
target that cannot be assigned to is kept and the value dropped. -/
def expression (fuel : Nat) : TokenReader Expr :=
  match fuel with
  | 0 => outOfFuel
  | fuel + 1 => do
    let left ← binary fuel .or
    match ← take? .equal with
    | none => return left
    | some equals =>
      -- the value is read first, so a mistake in it comes before one in the target
      let value ← expression fuel
      match assignment? left value with
      | some result => return result
      | none =>
        complain .assignmentTarget equals
        return left

/-- An expression of a level: operands joined from the left. -/
def binary (fuel : Nat) (level : Level) : TokenReader Expr :=
  match fuel with
  | 0 => outOfFuel
  | fuel + 1 => do
    let left ← operand fuel level
    binaryRest fuel level left

/-- What follows the operand `left` on its level. -/
def binaryRest (fuel : Nat) (level : Level) (left : Expr) : TokenReader Expr :=
  match fuel with
  | 0 => outOfFuel
  | fuel + 1 => do
    match ← takeIf level.has with
    | some op =>
      let right ← operand fuel level
      binaryRest fuel level (level.join left op right)
    | none => return left

/-- An operand of a level. -/
def operand (fuel : Nat) (level : Level) : TokenReader Expr :=
  match fuel with
  | 0 => outOfFuel
  | fuel + 1 =>
    match level.tighter? with
    | some level => binary fuel level
    | none => unary fuel

/-- An expression behind any number of signs. -/
def unary (fuel : Nat) : TokenReader Expr :=
  match fuel with
  | 0 => outOfFuel
  | fuel + 1 => do
    match ← takeIf isSign with
    | some op => return .unary op (← unary fuel)
    | none =>
      let callee ← primary fuel
      postfixes fuel callee

/-- The calls and property accesses that follow `left`. -/
def postfixes (fuel : Nat) (left : Expr) : TokenReader Expr :=
  match fuel with
  | 0 => outOfFuel
  | fuel + 1 => do
    if ← skip? .leftParen then
      let args ← argumentList fuel
      let paren ← expect .argumentsClose
      postfixes fuel (.call left paren args)
    else if ← skip? .dot then
      let name ← expect .propertyName
      postfixes fuel (.get left name)
    else return left

/-- The arguments of a call, of which there may be none. -/
def argumentList (fuel : Nat) : TokenReader (List Expr) :=
  match fuel with
  | 0 => outOfFuel
  | fuel + 1 => do
    if ← at? .rightParen then return []
    else arguments fuel 0

/-- One argument and those after it, when `count` have been read. Each one beyond
the limit earns a complaint at its first token. -/
def arguments (fuel : Nat) (count : Nat) : TokenReader (List Expr) :=
  match fuel with
  | 0 => outOfFuel
  | fuel + 1 => do
    if count ≥ maxEntries then
      complainHere .tooManyArguments
    let arg ← expression fuel
    if ← skip? .comma then
      return arg :: (← arguments fuel (count + 1))
    else return [arg]

/-- An expression without operators. -/
def primary (fuel : Nat) : TokenReader Expr :=
  match fuel with
  | 0 => outOfFuel
  | fuel + 1 => do
    match ← takeLiteral with
    | some literal => return .literal literal.toConstant
    | none =>
      match ← take Opening.ofKind? with
      | some (_, .constant value) => return .literal value
      | some (keyword, .super) =>
        let _ ← expect .superDot
        return .super keyword (← expect .superMethod)
      | some (keyword, .this) => return .this keyword
      | some (name, .name) => return .variable name
      | some (_, .group) =>
        let inner ← expression fuel
        let _ ← expect .groupClose
        return .grouping inner
      | none => giveUpHere .noExpression

end

end Lox.Grammar
