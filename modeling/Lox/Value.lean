/-
`Lox.Value` -- what expressions evaluate to.

Numbers, strings, truth values and nil are what they are. Functions, classes and
instances have an identity besides: two of them are equal only if they are the
same one, so each carries the number it was created with. The fields of an
instance change, and are kept apart from it; what it is an instance of does not
change, and is part of the value.

A class carries its ancestors with it. Finding a method is a search through a
finite list, and cannot go round in circles.
-/
import Lox.Decimal.Numeral
import Lox.Store.Forest
import Lox.Tree

set_option autoImplicit false

namespace Lox

/-! ## Functions and classes -/

/-- A function as a value: its declaration, and the frame it was declared in. The
result of an initializer is always the instance it initializes. -/
structure Closure where
  decl : FunctionDecl
  frame : FrameId
  isInitializer : Bool

namespace Closure

/-- The name of a function. -/
def name (f : Closure) : String :=
  f.decl.name.lexeme

/-- The number of arguments a function takes. -/
def arity (f : Closure) : Nat :=
  f.decl.params.length

end Closure

/-- What one class declaration contributes. -/
structure ClassBody where
  serial : Nat
  name : String
  methods : Table Closure

/-- A class: its own declaration, and those it inherits from, nearest first. -/
structure Class where
  own : ClassBody
  ancestors : List ClassBody

namespace Class

/-- The name of a class. -/
def name (c : Class) : String :=
  c.own.name

/-- The declarations in which a method is looked for, in order. -/
def lineage (c : Class) : List ClassBody :=
  c.own :: c.ancestors

/-- The method of a name: that of the nearest declaration that has one. -/
def findMethod? (c : Class) (name : String) : Option Closure :=
  c.lineage.findSome? fun body => body.methods.find? name

/-- The number of arguments that creating an instance takes. -/
def arity (c : Class) : Nat :=
  match c.findMethod? "init" with
  | some init => init.arity
  | none => 0

end Class

/-! ## Values -/

/-- Refers to the fields of an instance. -/
structure InstanceId where
  index : Nat
deriving DecidableEq, Repr, Inhabited

/-- A function that the host provides; `index` says which one. -/
structure HostFunction where
  index : Nat
  name : String
  arity : Nat
deriving DecidableEq, Repr

/-- The value of an expression. -/
inductive Value where
  | nil
  | bool (value : Bool)
  | number (value : Float)
  | text (value : String)
  | function (serial : Nat) (fn : Closure)
  | host (fn : HostFunction)
  | classRef (cls : Class)
  | instanceOf (cls : Class) (id : InstanceId)

/-- The value of a constant. -/
def Constant.toValue : Constant → Value
  | nil => .nil
  | bool b => .bool b
  | number x => .number x
  | text s => .text s

namespace Value

instance : Inhabited Value := ⟨nil⟩

/-- Whether a condition with this value holds. -/
def isTruthy : Value → Bool
  | nil | bool false => false
  | _ => true

/-- The name of the kind of a value. -/
def typeName : Value → String
  | nil => "nil"
  | bool _ => "boolean"
  | number _ => "number"
  | text _ => "string"
  | function _ _ => "function"
  | host _ => "native function"
  | classRef _ => "class"
  | instanceOf _ _ => "instance"

/-- A value as it is printed. -/
def display : Value → String
  | nil => "nil"
  | bool b => if b then "true" else "false"
  | number x => Decimal.numberText x
  | text s => s
  | function _ fn => "<fn " ++ fn.name ++ ">"
  | host _ => "<native fn>"
  | classRef cls => cls.name
  | instanceOf cls _ => cls.name ++ " instance"

/-- Whether two values are equal. Values of different kinds never are. Numbers
are compared as numbers, so one that is not a number equals nothing. -/
def equals : Value → Value → Bool
  | nil, nil => true
  | bool a, bool b => a == b
  | number a, number b => a == b
  | text a, text b => a == b
  | function a _, function b _ => a == b
  | host a, host b => a.index == b.index
  | classRef a, classRef b => a.own.serial == b.own.serial
  | instanceOf _ a, instanceOf _ b => a == b
  | _, _ => false

/-! ## Quoted form -/

/-- A character between quotes. Control characters are written by their code. -/
def quotedChar (c : Char) : String :=
  if c = '"' then "\\\""
  else if c = '\\' then "\\\\"
  else if c = '\n' then "\\n"
  else if c = '\r' then "\\r"
  else if c = '\t' then "\\t"
  else if c.toNat = 0 then "\\0"
  else if c.toNat < 0x20 || c.toNat = 0x7F then
    "\\u\x7b" ++ String.ofList (Nat.toDigits 16 c.toNat) ++ "\x7d"
  else c.toString

/-- A value as it is shown where a string has to be told from other values. -/
def quoted : Value → String
  | text s => "\"" ++ String.join (s.toList.map quotedChar) ++ "\""
  | other => other.display

end Value

end Lox
