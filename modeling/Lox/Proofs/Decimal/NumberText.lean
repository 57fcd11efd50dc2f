/-
`Lox.Proofs.Decimal.NumberText` -- the text of a finite number tells the number.

Digits in positional form can be read back, as the decimal that they are or one of the same
value (`value_reread`). So of two numbers with one text, the shortest decimals have one
value, which lies in the intervals of both, and then they are one number. The sign can be
seen from the first character, and a zero from the value. From the sign, the mantissa and
the exponent of a number its pattern of bits can be put together again.
-/
import Lox.Decimal.Numeral
import Lox.Proofs.Decimal.Interval

set_option autoImplicit false

namespace Lox.Decimal

/-! ## Positional form -/

/-- The digits of a number are digits. -/
theorem isDigit_of_mem_digitChars {n : ℕ} {c : Char} (h : c ∈ digitChars n) : c.isDigit :=
  Nat.isDigit_of_mem_toDigits (by norm_num) (by norm_num) h

theorem isDigit_of_mem_zeros {n : ℕ} {c : Char} (h : c ∈ List.replicate n '0') : c.isDigit := by
  rw [List.eq_of_mem_replicate h]
  rfl

/-- The digits of a decimal with as many zeros before them that one at least stands before
the point. -/
def padded (d : Decimal) : List Char :=
  List.replicate ((-d.exponent).toNat + 1 - (digitChars d.digits).length) '0' ++
    digitChars d.digits

/-- So is all that stands for a number before the point is put in. -/
theorem isDigit_of_mem_padded {d : Decimal} {c : Char} (h : c ∈ padded d) : c.isDigit :=
  (List.mem_append.mp h).elim isDigit_of_mem_zeros isDigit_of_mem_digitChars

/-- There are enough digits for one to be left before the point. -/
theorem places_lt_length_padded (d : Decimal) : (-d.exponent).toNat < (padded d).length := by
  rw [padded, List.length_append, List.length_replicate]
  omega

/-- The digits before the point and those behind it. -/
theorem positional_of_neg {d : Decimal} (h : d.exponent < 0) :
    ∃ whole fraction, d.positional = whole ++ '.' :: fraction ∧ whole ++ fraction = padded d ∧
      fraction.length = (-d.exponent).toNat := by
  refine ⟨(padded d).take ((padded d).length - (-d.exponent).toNat),
    (padded d).drop ((padded d).length - (-d.exponent).toNat), ?_, List.take_append_drop _ _, ?_⟩
  · unfold positional
    dsimp only
    rw [if_neg (not_le.mpr h)]
    rfl
  · rw [List.length_drop]
    have hlength := places_lt_length_padded d
    omega

/-- Without decimals a number is its digits and then zeros. -/
theorem positional_of_nonneg {d : Decimal} (h : 0 ≤ d.exponent) :
    d.positional = digitChars d.digits ++ List.replicate d.exponent.toNat '0' := by
  unfold positional
  dsimp only
  rw [if_pos h]

/-- A decimal begins with a digit, and consists of digits and perhaps a point. -/
theorem positional_chars (d : Decimal) :
    (∃ c cs, d.positional = c :: cs ∧ c.isDigit) ∧ ∀ c ∈ d.positional, c.isDigit ∨ c = '.' := by
  rcases lt_or_ge d.exponent 0 with hneg | hnonneg
  -- with a negative exponent the digits are padded, so that one stands before the point
  · obtain ⟨whole, fraction, hpositional, hpadded, hlength⟩ := positional_of_neg hneg
    have hdigits : ∀ c ∈ whole ++ fraction, c.isDigit := by
      rw [hpadded]
      exact fun _ => isDigit_of_mem_padded
    have hwhole : whole ≠ [] := by
      rintro rfl
      have hlt := places_lt_length_padded d
      rw [← hpadded, List.nil_append, hlength] at hlt
      exact lt_irrefl _ hlt
    obtain ⟨c, cs, rfl⟩ := List.exists_cons_of_ne_nil hwhole
    rw [hpositional]
    refine ⟨⟨c, _, rfl, hdigits c List.mem_cons_self⟩, fun e he => ?_⟩
    rcases List.mem_append.mp he with he | he
    · exact .inl (hdigits e (List.mem_append_left _ he))
    · rcases List.mem_cons.mp he with rfl | he
      · exact .inr rfl
      · exact .inl (hdigits e (List.mem_append_right _ he))
  -- otherwise there are only digits, the last of which may be zeros
  · rw [positional_of_nonneg hnonneg]
    have hdigits : ∀ c ∈ digitChars d.digits ++ List.replicate d.exponent.toNat '0', c.isDigit :=
      fun c hc => (List.mem_append.mp hc).elim isDigit_of_mem_digitChars isDigit_of_mem_zeros
    refine ⟨?_, fun c hc => .inl (hdigits c hc)⟩
    obtain ⟨c, cs, hcons⟩ :=
      List.exists_cons_of_ne_nil (Nat.toDigits_ne_nil (n := d.digits) (b := 10))
    refine ⟨c, cs ++ List.replicate d.exponent.toNat '0', ?_, hdigits c ?_⟩ <;>
      rw [digitChars, hcons]
    · rfl
    · exact List.mem_cons_self

/-! ## Reading back -/

/-- The decimal that digits with at most one point among them are. -/
def reread (cs : List Char) : Decimal :=
  ofParts (cs.takeWhile Char.isDigit) ((cs.dropWhile Char.isDigit).drop 1) 0

/-- Reading the digits of a number gives the number. -/
theorem digitsValue_digitChars (n : ℕ) : digitsValue (digitChars n) = n :=
  Nat.ofDigitChars_ten_toDigits

/-- Digits count for more by as many powers of ten as there are digits behind them. -/
theorem digitsValue_append (cs ds : List Char) :
    digitsValue (cs ++ ds) = 10 ^ ds.length * digitsValue cs + digitsValue ds := by
  show Nat.ofDigitChars 10 (cs ++ ds) 0 = _
  rw [Nat.ofDigitChars_append, Nat.ofDigitChars_eq_ofDigitChars_zero]
  rfl

/-- Leading zeros are worth nothing. -/
theorem digitsValue_zeros (n : ℕ) : digitsValue (List.replicate n '0') = 0 :=
  Eq.trans (b := 10 ^ n * 0) Nat.ofDigitChars_replicate_zero (Nat.mul_zero _)

/-- The digits end where something else begins, so that both parts can be read off. -/
theorem takeWhile_digits {cs : List Char} (rest : List Char) (hcs : ∀ c ∈ cs, c.isDigit)
    (hrest : ∀ c ∈ rest.head?, ¬ c.isDigit) :
    (cs ++ rest).takeWhile Char.isDigit = cs ∧ (cs ++ rest).dropWhile Char.isDigit = rest := by
  rw [List.takeWhile_append_of_pos hcs, List.dropWhile_append_of_pos hcs]
  cases rest with
  | nil => exact ⟨List.append_nil _, rfl⟩
  | cons c rest =>
    have hc := hrest c rfl
    rw [List.takeWhile_cons_of_neg hc, List.dropWhile_cons_of_neg hc]
    exact ⟨List.append_nil _, rfl⟩

/-- **What is written in positional form is read back with its value.** -/
theorem value_reread (d : Decimal) : (reread d.positional).value = d.value := by
  rcases lt_or_ge d.exponent 0 with hneg | hnonneg
  -- the text is cut at the point, and the padding in front is worth nothing
  · obtain ⟨whole, fraction, hpositional, hpadded, hlength⟩ := positional_of_neg hneg
    have hwhole : ∀ c ∈ whole, c.isDigit := fun c hc =>
      isDigit_of_mem_padded (d := d) (hpadded ▸ List.mem_append_left _ hc)
    obtain ⟨htake, hdrop⟩ := takeWhile_digits ('.' :: fraction) hwhole
      (by rintro c ⟨⟩; decide)
    have hdigits : digitsValue (padded d) = d.digits := by
      rw [padded, digitsValue_append, digitsValue_zeros, digitsValue_digitChars, Nat.mul_zero,
        Nat.zero_add]
    have hreread : reread d.positional = ⟨d.digits, d.exponent⟩ := by
      rw [reread, hpositional, htake, hdrop, List.drop_one, List.tail_cons, ofParts, hpadded,
        hdigits, hlength]
      congr 1
      omega
    rw [hreread]
  -- without a point all is read as a whole, and the zeros behind count as a power of ten
  · have hall : ∀ c ∈ d.positional, c.isDigit := by
      rw [positional_of_nonneg hnonneg]
      exact fun c hc => (List.mem_append.mp hc).elim isDigit_of_mem_digitChars isDigit_of_mem_zeros
    obtain ⟨htake, hdrop⟩ := takeWhile_digits [] hall (by rintro c ⟨⟩)
    rw [List.append_nil] at htake hdrop
    have hreread : reread d.positional = ⟨10 ^ d.exponent.toNat * d.digits, 0⟩ := by
      rw [reread, htake, hdrop, List.drop_nil, ofParts, List.append_nil,
        positional_of_nonneg hnonneg, digitsValue_append, digitsValue_zeros,
        digitsValue_digitChars, List.length_replicate]
      rfl
    have hpower : (10 : ℚ) ^ d.exponent = (10 : ℚ) ^ d.exponent.toNat := by
      rw [← zpow_natCast, Int.toNat_of_nonneg hnonneg]
    rw [hreread, value, value, hpower, zpow_zero]
    push_cast
    ring

/-- One text is one value, whichever digits and exponent it was made from. -/
theorem value_eq_of_positional_eq {d d' : Decimal} (h : d.positional = d'.positional) :
    d.value = d'.value := by
  rw [← value_reread, h, value_reread]

/-! ## Signs -/

/-- A sign is told from a digit. -/
theorem signed_inj {negative negative' : Bool} {text text' : List Char}
    (htext : ∀ c ∈ text.head?, c.isDigit) (htext' : ∀ c ∈ text'.head?, c.isDigit)
    (h : signed negative text = signed negative' text') : negative = negative' ∧ text = text' := by
  have hlist := String.ofList_injective h
  have hsign : ∀ {cs : List Char}, (∀ c ∈ cs.head?, c.isDigit) → ∀ rest, cs ≠ '-' :: rest := by
    rintro _ hcs rest rfl
    exact absurd (hcs '-' rfl) (by decide)
  cases negative <;> cases negative'
  · exact ⟨rfl, hlist⟩
  · exact absurd hlist (hsign htext _)
  · exact absurd hlist.symm (hsign htext' _)
  · exact ⟨rfl, (List.cons.inj hlist).2⟩

/-! ## Patterns of bits -/

namespace Decoded

/-- The pattern stands for a number that is not infinite. -/
def IsFinite : Decoded → Prop
  | .zero _ | .finite _ _ => True
  | .notANumber | .infinite _ => False

/-- A pattern in terms of quotients: its first bit, the eleven bits of the exponent, and the
fraction. -/
theorem ofBits_eq (bits : ℕ) : ofBits bits =
    if bits / 2 ^ 52 % 2048 = 2047 then
      if bits % 2 ^ 52 = 0 then .infinite (bits / 2 ^ 63 % 2 == 1) else .notANumber
    else if bits / 2 ^ 52 % 2048 = 0 then
      if bits % 2 ^ 52 = 0 then .zero (bits / 2 ^ 63 % 2 == 1)
      else .finite (bits / 2 ^ 63 % 2 == 1) ⟨bits % 2 ^ 52, -1074, false⟩
    else .finite (bits / 2 ^ 63 % 2 == 1) ⟨2 ^ 52 + bits % 2 ^ 52,
      ((bits / 2 ^ 52 % 2048 : ℕ) : ℤ) - 1075,
      bits % 2 ^ 52 == 0 && decide (1 < bits / 2 ^ 52 % 2048)⟩ := by
  have hone : 1 <<< 52 = 2 ^ 52 := by decide
  unfold ofBits
  rw [hone, Nat.shiftRight_eq_div_pow, Nat.shiftRight_eq_div_pow]

variable {bits bits' : ℕ} {negative : Bool} {b : Binary}

/-- A zero has all bits clear but that of the sign. -/
theorem of_zero (h : ofBits bits = .zero negative) :
    negative = (bits / 2 ^ 63 % 2 == 1) ∧ bits / 2 ^ 52 % 2048 = 0 ∧ bits % 2 ^ 52 = 0 := by
  rw [ofBits_eq] at h
  split at h
  · split at h <;> cases h
  split at h
  · split at h
    · exact ⟨(zero.inj h).symm, by assumption, by assumption⟩
    · cases h
  · cases h

/-- On the finest scale the mantissa is the fraction, and on the others it has one more bit. -/
theorem of_finite (h : ofBits bits = .finite negative b) :
    negative = (bits / 2 ^ 63 % 2 == 1) ∧
      (bits / 2 ^ 52 % 2048 = 0 ∧ bits % 2 ^ 52 ≠ 0 ∧ b = ⟨bits % 2 ^ 52, -1074, false⟩ ∨
        bits / 2 ^ 52 % 2048 ≠ 0 ∧ b = ⟨2 ^ 52 + bits % 2 ^ 52,
          ((bits / 2 ^ 52 % 2048 : ℕ) : ℤ) - 1075,
          bits % 2 ^ 52 == 0 && decide (1 < bits / 2 ^ 52 % 2048)⟩) := by
  rw [ofBits_eq] at h
  split at h
  · split at h <;> cases h
  split at h
  · split at h
    · cases h
    · obtain ⟨hnegative, hb⟩ := finite.inj h
      exact ⟨hnegative.symm, .inl ⟨by assumption, by assumption, hb.symm⟩⟩
  · obtain ⟨hnegative, hb⟩ := finite.inj h
    exact ⟨hnegative.symm, .inr ⟨by assumption, hb.symm⟩⟩

/-- A pattern that is not zero stands for a number of the format. -/
theorem inFormat (h : ofBits bits = .finite negative b) : b.InFormat := by
  obtain ⟨-, ⟨-, hfraction, rfl⟩ | ⟨hexponent, rfl⟩⟩ := of_finite h
  · exact
      { pos := Nat.pos_of_ne_zero hfraction
        lt := by dsimp only; omega
        finest := le_refl _
        normal := .inr rfl
        narrow := by simp }
  · exact
      { pos := by dsimp only; omega
        lt := by dsimp only; omega
        finest := by dsimp only; omega
        normal := .inl (Nat.le_add_right _ _)
        narrow := by
          rw [Bool.eq_iff_iff, Bool.and_eq_true, beq_iff_eq, decide_eq_true_iff,
            decide_eq_true_iff]
          dsimp only
          omega }

/-- A finite pattern can be put together again from what it stands for. -/
theorem ofBits_inj (hbits : bits < 2 ^ 64) (hbits' : bits' < 2 ^ 64)
    (hfinite : (ofBits bits).IsFinite) (h : ofBits bits = ofBits bits') : bits = bits' := by
  have hwhole : (bits / 2 ^ 63 % 2 == 1) = (bits' / 2 ^ 63 % 2 == 1) →
      bits / 2 ^ 52 % 2048 = bits' / 2 ^ 52 % 2048 → bits % 2 ^ 52 = bits' % 2 ^ 52 →
      bits = bits' := by
    intro hnegative hexponent hfraction
    rw [Bool.eq_iff_iff, beq_iff_eq, beq_iff_eq] at hnegative
    omega
  cases hdecoded : ofBits bits with
  | notANumber | infinite negative =>
    rw [hdecoded] at hfinite
    exact hfinite.elim
  | zero negative =>
    obtain ⟨hnegative, hexponent, hfraction⟩ := of_zero hdecoded
    obtain ⟨hnegative', hexponent', hfraction'⟩ := of_zero (h ▸ hdecoded)
    exact hwhole (hnegative.symm.trans hnegative') (by omega) (by omega)
  | finite negative b =>
    obtain ⟨hnegative, hparts⟩ := of_finite hdecoded
    obtain ⟨hnegative', hparts'⟩ := of_finite (h ▸ hdecoded)
    refine hwhole (hnegative.symm.trans hnegative') ?_ ?_ <;>
      rcases hparts with ⟨hexponent, -, rfl⟩ | ⟨hexponent, rfl⟩ <;>
      rcases hparts' with ⟨hexponent', -, hb⟩ | ⟨hexponent', hb⟩ <;>
      · have hmantissa := congrArg Binary.mantissa hb
        have hscale := congrArg Binary.exponent hb
        dsimp only at hmantissa hscale
        omega

/-! ## Texts of patterns -/

/-- The sign of a number that is not infinite. -/
def isNegative : Decoded → Bool
  | .zero negative | .finite negative _ => negative
  | .notANumber | .infinite _ => false

/-- Its digits, with a point among them if it has a fraction. -/
def digits : Decoded → List Char
  | .zero _ => ['0']
  | .finite _ magnitude => magnitude.shortest.positional
  | .notANumber | .infinite _ => []

variable {decoded decoded' : Decoded}

/-- The text of a finite number is its sign and its digits. -/
theorem text_of_isFinite (h : decoded.IsFinite) (infinity : String) :
    decoded.text infinity = signed decoded.isNegative decoded.digits := by
  cases decoded with
  | notANumber | infinite negative => exact h.elim
  | zero negative | finite negative b => rfl

/-- The digits of a finite number begin with a digit and are digits or points. -/
theorem digits_chars (h : decoded.IsFinite) :
    (∃ c cs, decoded.digits = c :: cs ∧ c.isDigit) ∧
      ∀ c ∈ decoded.digits, c.isDigit ∨ c = '.' := by
  cases decoded with
  | notANumber | infinite negative => exact h.elim
  | zero negative => exact ⟨⟨'0', [], rfl, rfl⟩, by rintro c ⟨⟩ <;> [exact .inl rfl; contradiction]⟩
  | finite negative b => exact positional_chars _

/-- So a sign cannot be taken for one of them. -/
theorem isDigit_head_digits (h : decoded.IsFinite) : ∀ c ∈ decoded.digits.head?, c.isDigit := by
  obtain ⟨⟨c, cs, hcons, hc⟩, -⟩ := digits_chars h
  rw [hcons]
  rintro _ ⟨⟩
  exact hc

/-- No positive number is written as zero. -/
theorem positional_ne_zero (hb : b.InFormat) : b.shortest.positional ≠ ['0'] := by
  intro heq
  have hvalue : b.shortest.value = 0 := by
    have hzero : reread ['0'] = ⟨0, 0⟩ := rfl
    rw [← value_reread, heq, hzero, Decimal.value, Nat.cast_zero, zero_mul]
  have hpos := b.pos_of_inside hb.pos (b.shortest_inside hb.pos)
  rw [hvalue] at hpos
  exact lt_irrefl _ hpos

/-- Numbers that are not infinite are told by their texts. -/
theorem text_inj (hfinite : decoded.IsFinite) (hfinite' : decoded'.IsFinite)
    (hformat : ∀ negative b, decoded = .finite negative b → b.InFormat)
    (hformat' : ∀ negative b, decoded' = .finite negative b → b.InFormat) {infinity : String}
    (h : decoded.text infinity = decoded'.text infinity) : decoded = decoded' := by
  rw [text_of_isFinite hfinite, text_of_isFinite hfinite'] at h
  obtain ⟨hnegative, hdigits⟩ :=
    signed_inj (isDigit_head_digits hfinite) (isDigit_head_digits hfinite') h
  cases decoded with
  | notANumber | infinite negative => exact hfinite.elim
  | zero negative =>
    cases decoded' with
    | notANumber | infinite negative' => exact hfinite'.elim
    | zero negative' => exact congrArg zero hnegative
    | finite negative' b' => exact absurd hdigits.symm (positional_ne_zero (hformat' _ _ rfl))
  | finite negative b =>
    have hb := hformat _ _ rfl
    cases decoded' with
    | notANumber | infinite negative' => exact hfinite'.elim
    | zero negative' => exact absurd hdigits (positional_ne_zero hb)
    | finite negative' b' =>
      have hb' := hformat' _ _ rfl
      -- one value lies in the intervals of both
      have hinside' := b'.shortest_inside hb'.pos
      rw [← value_eq_of_positional_eq hdigits] at hinside'
      exact congrArg₂ finite hnegative (hb.eq_of_inside hb' (b.shortest_inside hb.pos) hinside')

end Decoded

/-! ## Texts of numbers -/

variable {x y : Float}

/-- Where all bits of the exponent are set, the number is not finite. -/
theorem not_isFinite_of_exponent (h : x.toBits.toNat / 2 ^ 52 % 2048 = 2047) :
    x.isFinite = false := by
  have hones : @Float.Model.UnpackedFloat.unpackExponent .binary64 x.toBits.toBitVec = -1#11 := by
    apply BitVec.eq_of_toNat_eq
    simp [Float.Model.UnpackedFloat.unpackExponent, Nat.shiftRight_eq_div_pow]
    omega
  show (Float.Model.UnpackedFloat.unpack .binary64 x.toBits.toBitVec).isFinite = false
  refine (congrArg Float.Model.UnpackedFloat.isFinite (if_pos hones)).trans ?_
  split <;> rfl

/-- A finite number has a pattern that stands for one. -/
theorem isFinite_decoded (h : x.isFinite) : (Decoded.ofBits x.toBits.toNat).IsFinite := by
  have hexponent : x.toBits.toNat / 2 ^ 52 % 2048 ≠ 2047 := by
    intro hall
    rw [not_isFinite_of_exponent hall] at h
    cases h
  rw [Decoded.ofBits_eq, if_neg hexponent]
  split
  · split <;> trivial
  · trivial

/-- Numbers are their bits. -/
theorem eq_of_toBits_eq (h : x.toBits = y.toBits) : x = y := by
  obtain ⟨⟨bits, hx⟩⟩ := x
  obtain ⟨⟨bits', hy⟩⟩ := y
  obtain rfl : bits = bits' := h
  rfl

/-- **Finite numbers are told by their texts.** -/
theorem numberText_inj (hx : x.isFinite) (hy : y.isFinite) (h : numberText x = numberText y) :
    x = y := by
  have hdecoded := Decoded.text_inj (isFinite_decoded hx) (isFinite_decoded hy)
    (fun _ _ => Decoded.inFormat) (fun _ _ => Decoded.inFormat) h
  have hbits := Decoded.ofBits_inj x.toBits.toNat_lt y.toBits.toNat_lt (isFinite_decoded hx)
    hdecoded
  exact eq_of_toBits_eq (UInt64.toNat_inj.mp hbits)

/-- The text of a finite number is made of digits, points and signs, and does not begin with a
point. -/
theorem numberText_chars (hx : x.isFinite) :
    ∃ c cs, (numberText x).toList = c :: cs ∧ (c.isDigit ∨ c = '-') ∧
      ∀ d ∈ c :: cs, d.isDigit ∨ d = '.' ∨ d = '-' := by
  have hfinite := isFinite_decoded hx
  rw [numberText, Decoded.text_of_isFinite hfinite, signed, String.toList_ofList]
  generalize Decoded.ofBits x.toBits.toNat = decoded at hfinite
  obtain ⟨⟨c, cs, hcons, hc⟩, hchars⟩ := Decoded.digits_chars hfinite
  rw [hcons] at hchars ⊢
  have hchars : ∀ d ∈ c :: cs, d.isDigit ∨ d = '.' ∨ d = '-' := fun d hd =>
    (hchars d hd).imp_right .inl
  cases decoded.isNegative with
  | false => exact ⟨c, cs, rfl, .inl hc, hchars⟩
  | true => exact ⟨'-', c :: cs, rfl, .inr rfl, List.forall_mem_cons.mpr ⟨.inr (.inr rfl), hchars⟩⟩

end Lox.Decimal
