/-
`Lox.Decimal.Numeral` -- numbers as text, in both directions.

Writing never uses an exponent: a number is its shortest digits with as many
zeros before or after them as its size asks for, and a point only where digits
follow it. A negative zero keeps its sign. What is written for the infinite
values is a parameter, because programs and their tokens spell them
differently.

Reading takes a sign, digits with at most one point among them, and an
exponent, and rounds the exact decimal once to the nearest 64-bit number.
-/
import Lox.Decimal.Shortest

set_option autoImplicit false

namespace Lox.Decimal

/-! ## Decoding the 64-bit format -/

/-- What a 64-bit pattern stands for. -/
inductive Decoded where
  | notANumber
  | infinite (negative : Bool)
  | zero (negative : Bool)
  | finite (negative : Bool) (magnitude : Binary)

/-- One sign bit, eleven bits of exponent, 52 bits of mantissa. The lowest
exponent has no hidden leading bit, and shares its scale with the next. -/
def Decoded.ofBits (bits : Nat) : Decoded :=
  let negative := bits >>> 63 % 2 == 1
  let exponent : Nat := bits >>> 52 % 2048
  let fraction := bits % (1 <<< 52)
  if exponent = 2047 then
    if fraction = 0 then .infinite negative else .notANumber
  else if exponent = 0 then
    if fraction = 0 then .zero negative else .finite negative ⟨fraction, -1074, false⟩
  else
    .finite negative ⟨(1 <<< 52) + fraction, (exponent : Int) - 1075, fraction == 0 && exponent > 1⟩

/-! ## Writing -/

/-- The decimal digits of a whole number, most significant first. -/
def digitChars (n : Nat) : List Char :=
  Nat.toDigits 10 n

/-- A decimal in positional form. -/
def positional (d : Decimal) : List Char :=
  let digits := digitChars d.digits
  if 0 ≤ d.exponent then digits ++ List.replicate d.exponent.toNat '0'
  else
    let places := (-d.exponent).toNat
    -- one digit at least stands before the point
    let padded := List.replicate (places + 1 - digits.length) '0' ++ digits
    let whole := padded.length - places
    padded.take whole ++ '.' :: padded.drop whole

/-- A text behind its sign; only a minus is written. -/
def signed (negative : Bool) (text : List Char) : String :=
  String.ofList (if negative then '-' :: text else text)

/-- The text of a decoded number; `infinity` is the word for an infinite one.
A value that is not a number has no sign. -/
def Decoded.text (infinity : String) : Decoded → String
  | .notANumber => "NaN"
  | .infinite negative => signed negative infinity.toList
  | .zero negative => signed negative ['0']
  | .finite negative magnitude => signed negative magnitude.shortest.positional

/-- The text of a number in a value or a tree. -/
def numberText (x : Float) : String :=
  (Decoded.ofBits x.toBits.toNat).text "Infinity"

/-- The text of a number as the literal of a token. -/
def literalText (x : Float) : String :=
  (Decoded.ofBits x.toBits.toNat).text "inf"

/-! ## Reading -/

/-- The number that a list of decimal digits denotes. -/
def digitsValue (cs : List Char) : Nat :=
  cs.foldl (fun n c => 10 * n + (c.toNat - '0'.toNat)) 0

/-- `digits * 10 ^ exponent`, rounded once. -/
def toFloat (d : Decimal) : Float :=
  Float.ofScientific d.digits (decide (d.exponent < 0)) d.exponent.natAbs

/-- Digits before the point and digits after it, as one decimal. -/
def ofParts (whole fraction : List Char) (exponent : Int) : Decimal :=
  ⟨digitsValue (whole ++ fraction), exponent - fraction.length⟩

/-- The value of an unsigned numeral: digits, then if a point follows, the
digits behind it. -/
def unsignedValue (cs : List Char) : Float :=
  (ofParts (cs.takeWhile Char.isDigit) ((cs.dropWhile Char.isDigit).drop 1) 0).toFloat

/-- A whole number with an optional sign. -/
def readExponent? : List Char → Option Int
  | [] => none
  | '-' :: cs => if cs.isEmpty || !cs.all Char.isDigit then none else some (-digitsValue cs)
  | '+' :: cs => if cs.isEmpty || !cs.all Char.isDigit then none else some (digitsValue cs)
  | cs => if !cs.all Char.isDigit then none else some (digitsValue cs)

/-- A numeral without sign: digits, a point, digits, and an exponent after `e`.
At least one digit has to stand before the exponent. -/
def readUnsigned? (cs : List Char) : Option Float :=
  let whole := cs.takeWhile Char.isDigit
  let rest := cs.dropWhile Char.isDigit
  let (fraction, rest) := match rest with
    | '.' :: more => (more.takeWhile Char.isDigit, more.dropWhile Char.isDigit)
    | _ => ([], rest)
  if whole.isEmpty && fraction.isEmpty then none
  else match rest with
    | [] => some (ofParts whole fraction 0).toFloat
    | mark :: power =>
      if mark = 'e' || mark = 'E' then
        (readExponent? power).map fun n => (ofParts whole fraction n).toFloat
      else none

/-- A word for a value that has no digits, or a numeral. -/
def readMagnitude? (cs : List Char) : Option Float :=
  if cs = "inf".toList then some (1.0 / 0.0)
  else if cs = "NaN".toList then some (0.0 / 0.0)
  else readUnsigned? cs

/-- The number that a text denotes: a magnitude with an optional minus. -/
def readNumber? (s : String) : Option Float :=
  match s.toList with
  | '-' :: cs => (readMagnitude? cs).map (-·)
  | cs => readMagnitude? cs

end Lox.Decimal
