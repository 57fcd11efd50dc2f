/-
`Lox.Decimal.Shortest` -- the shortest decimal that stands for a binary number.

A binary number of limited precision stands for an interval of reals: those
that lie nearer to it than to its two neighbours. The decimal chosen for it is
the one on the coarsest grid `10 ^ e` that has a point in that interval, and of
those points the nearest to the number itself; of two equally near points the
upper one is taken. The interval spans a factor of at most three, so the
coarsest grid is also the one whose points have the fewest digits.

Everything is exact arithmetic on natural numbers: a comparison of two reals is
cross-multiplied, and nothing is estimated. The search starts on a grid that is
certainly too coarse and stops at the latest on one that holds the number
itself, which bounds it.
-/

set_option autoImplicit false

namespace Lox

/-- A decimal number `digits * 10 ^ exponent`. -/
structure Decimal where
  digits : Nat
  exponent : Int
deriving DecidableEq, Repr

namespace Decimal

/-! ## The number and its interval -/

/-- A positive binary number `mantissa * 2 ^ exponent`. In a format with a fixed
number of binary digits the neighbour below a power of two is only half as far
as the one above; `narrow` says that this is such a number. -/
structure Binary where
  mantissa : Nat
  exponent : Int
  narrow : Bool

/-- A number and the ends of its interval, as multiples of `1 / unit`. -/
structure Interval where
  low : Nat
  value : Nat
  high : Nat
  unit : Nat
  closed : Bool

/-- The reals that are read back as `b`: half the way to either neighbour, so
the ends are quarters of the last binary place. A real at an end is read as the
neighbour whose mantissa is even. -/
def Binary.interval (b : Binary) : Interval :=
  let scale := Nat.pow 2 (b.exponent - 2).toNat
  { low := (4 * b.mantissa - if b.narrow then 1 else 2) * scale
    value := 4 * b.mantissa * scale
    high := (4 * b.mantissa + 2) * scale
    unit := Nat.pow 2 (2 - b.exponent).toNat
    closed := b.mantissa % 2 == 0 }

/-- The same interval measured in steps of `10 ^ e`. -/
def Interval.onGrid (i : Interval) (e : Int) : Interval :=
  let finer := Nat.pow 10 (-e).toNat
  { i with
    low := i.low * finer
    value := i.value * finer
    high := i.high * finer
    unit := i.unit * Nat.pow 10 e.toNat }

/-- Whether the whole number `d` lies in the interval. -/
def Interval.contains (i : Interval) (d : Nat) : Bool :=
  if i.closed then i.low ≤ d * i.unit && d * i.unit ≤ i.high
  else i.low < d * i.unit && d * i.unit < i.high

/-- The whole number in the interval that is nearest to its value, if there is
one. Only the two neighbours of the value have to be tried: an interval around
the value that holds a whole number holds one of them. -/
def Interval.nearest? (i : Interval) : Option Nat :=
  let below := i.value / i.unit
  let above := below + 1
  match i.contains below, i.contains above with
  | true, true =>
    -- the upper one also when both are equally near
    if i.value - below * i.unit < above * i.unit - i.value then some below else some above
  | true, false => some below
  | false, true => some above
  | false, false => none

/-! ## The search -/

/-- An exponent whose grid has no point in the interval of `b` but zero. With
`n` binary places before the point the number is below `2 ^ n`, and
`2 ^ 3 ≤ 10 ≤ 2 ^ 4`. -/
def Binary.coarseExponent (b : Binary) : Int :=
  let places : Int := b.mantissa.log2 + 2 + b.exponent
  if 0 ≤ places then places / 3 + 1 else -((-places) / 4)

/-- The first grid, going down from `10 ^ e`, that has a point in the interval.
The bound on the steps is never reached from `Binary.shortest`. -/
def Interval.coarsest (i : Interval) (steps : Nat) (e : Int) : Decimal :=
  match steps with
  | 0 => ⟨(i.onGrid e).value / (i.onGrid e).unit, e⟩
  | steps + 1 =>
    match (i.onGrid e).nearest? with
    | some d => ⟨d, e⟩
    | none => i.coarsest steps (e - 1)

/-- The shortest decimal that is read back as `b`. The number itself is a point
of the grid `10 ^ exponent` if the exponent is negative, and whole otherwise. -/
def Binary.shortest (b : Binary) : Decimal :=
  let start := b.coarseExponent
  b.interval.coarsest (start - min b.exponent 0 + 1).toNat start

/-- The smallest positive number of the 64-bit format. Both `3e-324` and
`7e-324` are read back as it; `5e-324` is nearest. -/
example : Binary.shortest ⟨1, -1074, false⟩ = ⟨5, -324⟩ := by decide +kernel

/-- A tie goes up: `2 ^ -25` ends in `3125`, and the last place of seventeen
lies midway. -/
example : Binary.shortest ⟨2 ^ 52, -77, true⟩ = ⟨29802322387695313, -24⟩ := by decide +kernel

end Decimal

end Lox
