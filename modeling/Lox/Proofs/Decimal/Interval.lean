/-
`Lox.Proofs.Decimal.Interval` -- the shortest decimal lies in its number's interval only.

The search for the shortest decimal of a binary number ends on the grid that holds the
number itself, if not before, so that what it finds lies in the interval of the number
(`shortest_inside`). And the intervals of two numbers of the 64-bit format have no real in
common: the upper end of the one is at most the lower end of the other, and where they are
the same point, the mantissa of one of the two is odd, so that its interval is open
(`eq_of_inside`). So a decimal that lies in the interval of a number tells the number.
-/
import Lox.Decimal.Shortest
import Mathlib.Algebra.Order.Field.Power
import Mathlib.Algebra.Order.Field.Rat
import Mathlib.Tactic.FieldSimp
import Mathlib.Tactic.Linarith
import Mathlib.Tactic.Positivity
import Mathlib.Tactic.Ring

set_option autoImplicit false

namespace Lox.Decimal

/-! ## Decimals as rational numbers -/

/-- The number that a decimal is. -/
def value (d : Decimal) : ℚ :=
  d.digits * (10 : ℚ) ^ d.exponent

/-- A power with any exponent is the quotient of two with natural ones. -/
theorem zpow_mul_pow_toNat {base : ℕ} (hbase : 0 < base) (e : ℤ) :
    (base : ℚ) ^ e * (Nat.pow base (-e).toNat : ℕ) = (Nat.pow base e.toNat : ℕ) := by
  have hne : (base : ℚ) ≠ 0 := by positivity
  rw [Nat.pow_eq, Nat.pow_eq, Nat.cast_pow, Nat.cast_pow, ← zpow_natCast, ← zpow_natCast,
    ← zpow_add₀ hne]
  congr 1
  omega

/-! ## Intervals -/

/-- The rational number lies in the interval. -/
def Interval.Inside (i : Interval) (q : ℚ) : Prop :=
  if i.closed then i.low ≤ q * i.unit ∧ q * i.unit ≤ i.high
  else i.low < q * i.unit ∧ q * i.unit < i.high

/-- A point of a grid is counted in steps of the grid. -/
theorem Interval.contains_onGrid {i : Interval} {e : ℤ} {d : ℕ} :
    (i.onGrid e).contains d ↔ i.Inside (⟨d, e⟩ : Decimal).value := by
  have hfiner : (0 : ℚ) < (Nat.pow 10 (-e).toNat : ℕ) :=
    Nat.cast_pos.mpr (Nat.pow_pos (by norm_num))
  have hsteps : ((d * (i.unit * Nat.pow 10 e.toNat) : ℕ) : ℚ)
      = (⟨d, e⟩ : Decimal).value * i.unit * (Nat.pow 10 (-e).toNat : ℕ) := by
    rw [Decimal.value, Nat.cast_mul, Nat.cast_mul, ← zpow_mul_pow_toNat (by norm_num) e]
    push_cast
    ring
  unfold contains Inside onGrid
  dsimp only
  generalize d * (i.unit * Nat.pow 10 e.toNat) = steps at hsteps
  split
  · rw [Bool.and_eq_true, decide_eq_true_iff, decide_eq_true_iff, ← Nat.cast_le (α := ℚ),
      ← Nat.cast_le (α := ℚ), hsteps, Nat.cast_mul, Nat.cast_mul, mul_le_mul_iff_left₀ hfiner,
      mul_le_mul_iff_left₀ hfiner]
  · rw [Bool.and_eq_true, decide_eq_true_iff, decide_eq_true_iff, ← Nat.cast_lt (α := ℚ),
      ← Nat.cast_lt (α := ℚ), hsteps, Nat.cast_mul, Nat.cast_mul, mul_lt_mul_iff_left₀ hfiner,
      mul_lt_mul_iff_left₀ hfiner]

/-- What is found near the value lies in the interval. -/
theorem Interval.contains_of_nearest? {i : Interval} {d : ℕ} (h : i.nearest? = some d) :
    i.contains d := by
  unfold nearest? at h
  dsimp only at h
  split at h
  · split at h
    · cases h
      assumption
    · cases h
      assumption
  · cases h
    assumption
  · cases h
    assumption
  · cases h

/-- A grid that holds the value has a point in the interval. -/
theorem Interval.nearest?_isSome {i : Interval} (hvalue : i.unit ∣ i.value)
    (hlow : i.low < i.value) (hhigh : i.value < i.high) : i.nearest?.isSome := by
  have hbelow : i.contains (i.value / i.unit) := by
    rw [contains, Nat.div_mul_cancel hvalue]
    split
    · simp [hlow.le, hhigh.le]
    · simp [hlow, hhigh]
  unfold nearest?
  dsimp only
  rw [hbelow]
  split
  · split <;> rfl
  all_goals first | rfl | simp_all

/-! ## The search -/

/-- The search finds a point in the interval if a grid that it comes to has one. -/
theorem Interval.inside_coarsest {i : Interval} {steps : ℕ} {e finest : ℤ}
    (hsome : (i.onGrid finest).nearest?.isSome) (hle : finest ≤ e) (hreach : e - steps < finest) :
    i.Inside (i.coarsest steps e).value := by
  induction steps generalizing e with
  | zero => omega
  | succ steps ih =>
    rw [coarsest]
    cases hnearest : (i.onGrid e).nearest? with
    | some d => exact contains_onGrid.mp (contains_of_nearest? hnearest)
    | none =>
      have hne : finest ≠ e := by
        rintro rfl
        rw [hnearest] at hsome
        cases hsome
      exact ih (by omega) (by omega)

namespace Binary

variable {b : Binary}

/-- The grid that the search ends on holds the number. -/
theorem nearest?_finest (hb : 0 < b.mantissa) :
    (b.interval.onGrid (min b.exponent 0)).nearest?.isSome := by
  have htwo : ∀ n, 0 < Nat.pow 2 n := fun n => Nat.two_pow_pos n
  have hten : ∀ n, 0 < Nat.pow 10 n := fun n => Nat.pow_pos (by norm_num)
  refine Interval.nearest?_isSome ?_ ?_ ?_
  -- the number is on this grid, because the powers of two go into those of ten
  · show Nat.pow 2 (2 - b.exponent).toNat * Nat.pow 10 (min b.exponent 0).toNat
      ∣ 4 * b.mantissa * Nat.pow 2 (b.exponent - 2).toNat * Nat.pow 10 (-min b.exponent 0).toNat
    have hone : (min b.exponent 0).toNat = 0 := by omega
    have hpower : Nat.pow 2 (2 - b.exponent).toNat
        ∣ 2 ^ 2 * Nat.pow 10 (-min b.exponent 0).toNat := by
      have hten : Nat.pow 10 (-min b.exponent 0).toNat
          = 2 ^ (-min b.exponent 0).toNat * 5 ^ (-min b.exponent 0).toNat := by
        rw [Nat.pow_eq, ← Nat.mul_pow]
      rw [hten, ← Nat.mul_assoc, ← Nat.pow_add]
      exact Dvd.dvd.mul_right (Nat.pow_dvd_pow 2 (by omega)) _
    rw [hone, show Nat.pow 10 0 = 1 from rfl, Nat.mul_one]
    obtain ⟨k, hk⟩ := hpower
    refine ⟨b.mantissa * Nat.pow 2 (b.exponent - 2).toNat * k, ?_⟩
    calc 4 * b.mantissa * Nat.pow 2 (b.exponent - 2).toNat * Nat.pow 10 (-min b.exponent 0).toNat
        = 2 ^ 2 * Nat.pow 10 (-min b.exponent 0).toNat
            * (b.mantissa * Nat.pow 2 (b.exponent - 2).toNat) := by ring
      _ = _ := by rw [hk]; ring
  -- it lies strictly between the ends, of which the lower one may be nearer
  · refine Nat.mul_lt_mul_of_pos_right (Nat.mul_lt_mul_of_pos_right ?_ (htwo _)) (hten _)
    split <;> omega
  · exact Nat.mul_lt_mul_of_pos_right (Nat.mul_lt_mul_of_pos_right (by omega) (htwo _)) (hten _)

/-- **The shortest decimal lies in the interval of its number.** -/
theorem shortest_inside (hb : 0 < b.mantissa) : b.interval.Inside b.shortest.value := by
  refine Interval.inside_coarsest (nearest?_finest hb) ?_ ?_ <;>
  · unfold coarseExponent
    dsimp only
    split <;> omega

/-! ## Intervals of the 64-bit format -/

/-- The lower end of the interval of a number. -/
def lower (b : Binary) : ℚ :=
  (4 * b.mantissa - if b.narrow then 1 else 2) * (2 : ℚ) ^ (b.exponent - 2)

/-- The upper end. -/
def upper (b : Binary) : ℚ :=
  (4 * b.mantissa + 2) * (2 : ℚ) ^ (b.exponent - 2)

/-- The number is one of the 64-bit format: it has no more than 53 binary digits, and less
only on the finest scale. The neighbour below is nearer where it is on a finer scale. -/
structure InFormat (b : Binary) : Prop where
  pos : 0 < b.mantissa
  lt : b.mantissa < 2 ^ 53
  finest : -1074 ≤ b.exponent
  normal : 2 ^ 52 ≤ b.mantissa ∨ b.exponent = -1074
  narrow : b.narrow = decide (b.mantissa = 2 ^ 52 ∧ -1074 < b.exponent)

/-- The interval is closed exactly for an even mantissa, which is how ties are rounded. -/
theorem inside_interval_iff (hb : 0 < b.mantissa) {q : ℚ} : b.interval.Inside q ↔
    if b.mantissa % 2 = 0 then b.lower ≤ q ∧ q ≤ b.upper else b.lower < q ∧ q < b.upper := by
  have hunit : (0 : ℚ) < b.interval.unit := Nat.cast_pos.mpr (Nat.two_pow_pos _)
  have hscale : (2 : ℚ) ^ (b.exponent - 2) * b.interval.unit
      = (Nat.pow 2 (b.exponent - 2).toNat : ℕ) := by
    have htwo := zpow_mul_pow_toNat two_pos (b.exponent - 2)
    rw [show -(b.exponent - 2) = 2 - b.exponent by ring] at htwo
    exact htwo
  have hlow : (b.interval.low : ℚ) = b.lower * b.interval.unit := by
    rw [lower, mul_assoc, hscale]
    show (((4 * b.mantissa - if b.narrow then 1 else 2) * _ : ℕ) : ℚ) = _
    rw [Nat.cast_mul, Nat.cast_sub (by split <;> omega)]
    split <;> push_cast <;> rfl
  have hhigh : (b.interval.high : ℚ) = b.upper * b.interval.unit := by
    rw [upper, mul_assoc, hscale]
    show (((4 * b.mantissa + 2) * _ : ℕ) : ℚ) = _
    push_cast
    rfl
  unfold Interval.Inside
  rw [hlow, hhigh, mul_le_mul_iff_left₀ hunit, mul_le_mul_iff_left₀ hunit,
    mul_lt_mul_iff_left₀ hunit, mul_lt_mul_iff_left₀ hunit]
  simp [interval]

/-- Closed or not, nothing inside lies below the lower end. -/
theorem lower_le_of_inside (hb : 0 < b.mantissa) {q : ℚ} (h : b.interval.Inside q) :
    b.lower ≤ q := by
  rw [inside_interval_iff hb] at h
  split at h
  · exact h.1
  · exact h.1.le

/-- And nothing lies above the upper one. -/
theorem le_upper_of_inside (hb : 0 < b.mantissa) {q : ℚ} (h : b.interval.Inside q) :
    q ≤ b.upper := by
  rw [inside_interval_iff hb] at h
  split at h
  · exact h.2
  · exact h.2.le

/-- An end lies in the interval only if the mantissa is even. -/
theorem even_of_inside_upper (hb : 0 < b.mantissa) (h : b.interval.Inside b.upper) :
    b.mantissa % 2 = 0 := by
  rw [inside_interval_iff hb] at h
  split at h
  · assumption
  · exact absurd h.2 (lt_irrefl _)

/-- The lower end itself is inside for even mantissas only, as the upper end is. -/
theorem even_of_inside_lower (hb : 0 < b.mantissa) (h : b.interval.Inside b.lower) :
    b.mantissa % 2 = 0 := by
  rw [inside_interval_iff hb] at h
  split at h
  · assumption
  · exact absurd h.1 (lt_irrefl _)

/-- What lies in the interval of a positive number is positive. -/
theorem pos_of_inside (hb : 0 < b.mantissa) {q : ℚ} (h : b.interval.Inside q) : 0 < q := by
  refine lt_of_lt_of_le ?_ (lower_le_of_inside hb h)
  have hone : (1 : ℚ) ≤ b.mantissa := by exact_mod_cast hb
  refine mul_pos ?_ (by positivity)
  split <;> linarith

namespace InFormat

variable {b' : Binary}

/-- On the same scale the next mantissa is of the other parity, so that two intervals share
no more than an end that is not in one of them. -/
theorem mantissa_le {q : ℚ} (h : b.InFormat) (h' : b'.InFormat) (hscale : b.exponent = b'.exponent)
    (hq : b.interval.Inside q) (hq' : b'.interval.Inside q) : b'.mantissa ≤ b.mantissa := by
  by_contra hlt
  have hpower : (0 : ℚ) < (2 : ℚ) ^ (b.exponent - 2) := by positivity
  have hnext : (b.mantissa : ℚ) + 1 ≤ b'.mantissa := by exact_mod_cast not_le.mp hlt
  have hends : b.upper ≤ b'.lower := by
    rw [upper, lower, ← hscale]
    refine mul_le_mul_of_nonneg_right ?_ hpower.le
    split <;> linarith
  -- the ends are one point, and it is in both intervals
  have hle := le_upper_of_inside h.pos hq
  have hle' := lower_le_of_inside h'.pos hq'
  obtain rfl : q = b.upper := le_antisymm hle (hends.trans hle')
  have hlower : b.upper = b'.lower := le_antisymm hends hle'
  have heven := even_of_inside_upper h.pos hq
  rw [hlower] at hq'
  have heven' := even_of_inside_lower h'.pos hq'
  have hsucc : b'.mantissa ≤ b.mantissa + 1 := by
    rw [upper, lower, ← hscale, mul_left_inj' hpower.ne'] at hlower
    have hwidth : (if b'.narrow then 1 else 2 : ℚ) ≤ 2 := by split <;> norm_num
    have hcast : (b'.mantissa : ℚ) ≤ b.mantissa + 1 := by linarith
    exact_mod_cast hcast
  omega

/-- No number on a coarser scale has its interval lower. -/
theorem not_exponent_lt {q : ℚ} (h : b.InFormat) (h' : b'.InFormat) (hq : b.interval.Inside q)
    (hq' : b'.interval.Inside q) : ¬ b.exponent < b'.exponent := by
  intro hlt
  have hpower : (0 : ℚ) < (2 : ℚ) ^ (b.exponent - 2) := by positivity
  have hdouble : 2 * (2 : ℚ) ^ (b.exponent - 2) ≤ (2 : ℚ) ^ (b'.exponent - 2) := by
    rw [← zpow_one_add₀ two_ne_zero]
    exact zpow_le_zpow_right₀ one_le_two (by omega)
  have hfinest := h.finest
  have hnormal : 2 ^ 52 ≤ b'.mantissa := h'.normal.resolve_right (by omega)
  -- the end below is nearer exactly where the mantissa is the lowest one
  have hwidth : (2 : ℚ) ^ 54 - 1 ≤ 4 * b'.mantissa - if b'.narrow then 1 else 2 := by
    rcases hnormal.eq_or_lt with heq | hgt
    · have hnarrow : b'.narrow = true := by
        rw [h'.narrow, decide_eq_true_iff]
        exact ⟨heq.symm, by omega⟩
      rw [hnarrow, if_pos rfl, ← heq]
      norm_num
    · have hcast : (2 : ℚ) ^ 52 + 1 ≤ b'.mantissa := by exact_mod_cast hgt
      split <;> linarith
  have hlower : ((2 : ℚ) ^ 55 - 2) * (2 : ℚ) ^ (b.exponent - 2) ≤ b'.lower := by
    rw [lower]
    calc ((2 : ℚ) ^ 55 - 2) * (2 : ℚ) ^ (b.exponent - 2)
        = ((2 : ℚ) ^ 54 - 1) * (2 * (2 : ℚ) ^ (b.exponent - 2)) := by ring
      _ ≤ ((2 : ℚ) ^ 54 - 1) * (2 : ℚ) ^ (b'.exponent - 2) :=
        mul_le_mul_of_nonneg_left hdouble (by norm_num)
      _ ≤ _ := mul_le_mul_of_nonneg_right hwidth (by positivity)
  have hchain := (hlower.trans (lower_le_of_inside h'.pos hq')).trans
    (le_upper_of_inside h.pos hq)
  -- so the mantissa below is the highest one, which is odd
  have hhighest : b.mantissa = 2 ^ 53 - 1 := by
    rw [upper, mul_le_mul_iff_left₀ hpower] at hchain
    have hcast : (2 : ℚ) ^ 53 ≤ b.mantissa + 1 := by linarith
    have hle : 2 ^ 53 ≤ b.mantissa + 1 := by exact_mod_cast hcast
    have hlt := h.lt
    omega
  have hupper : b.upper = ((2 : ℚ) ^ 55 - 2) * (2 : ℚ) ^ (b.exponent - 2) := by
    rw [upper, hhighest]
    norm_num
  have hend : q = b.upper := by
    refine le_antisymm (le_upper_of_inside h.pos hq) ?_
    rw [hupper]
    exact hlower.trans (lower_le_of_inside h'.pos hq')
  rw [hend] at hq
  have heven := even_of_inside_upper h.pos hq
  omega

/-- **No two intervals of the format share a point.** -/
theorem eq_of_inside {q : ℚ} (h : b.InFormat) (h' : b'.InFormat) (hq : b.interval.Inside q)
    (hq' : b'.interval.Inside q) : b = b' := by
  have hexponent : b.exponent = b'.exponent :=
    le_antisymm (not_lt.mp (not_exponent_lt h' h hq' hq)) (not_lt.mp (not_exponent_lt h h' hq hq'))
  have hmantissa : b.mantissa = b'.mantissa :=
    le_antisymm (mantissa_le h' h hexponent.symm hq' hq) (mantissa_le h h' hexponent hq hq')
  have hnarrow : b.narrow = b'.narrow := by
    rw [h.narrow, h'.narrow, hmantissa, hexponent]
  obtain ⟨_, _, _⟩ := b
  obtain ⟨_, _, _⟩ := b'
  dsimp only at hexponent hmantissa hnarrow
  rw [hexponent, hmantissa, hnarrow]

end InFormat

end Binary

end Lox.Decimal
