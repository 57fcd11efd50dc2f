/-
`Lox.Span` -- a piece of a source text, as a range of bytes.

Spans are what tokens and diagnostics carry to say where they stand. A span
also knows the line on which it was opened, so that a message can name the line
without the text at hand. Both are kept in 32 bits. What lies further into a text
is reported at the last offset there is; lines are counted around, and behind the
last one comes line zero.
-/

set_option autoImplicit false

namespace Lox

/-! ## Lines -/

/-- The number of a line, a word of 32 bits. -/
abbrev LineNumber := Fin UInt32.size

namespace LineNumber

/-- The line that a text begins on. -/
def first : LineNumber := Fin.ofNat _ 1

variable (l : LineNumber) (lines more : Nat)

/-- The line that is so many lines further down. -/
def below : LineNumber :=
  l + Fin.ofNat _ lines

/-- Lines are counted around. -/
theorem val_below : (l.below lines : Nat) = (l + lines) % UInt32.size := by
  rw [below, Fin.val_add, Fin.val_ofNat, Nat.add_mod_mod]

/-- Within the range of words they are not. -/
theorem val_below_of_lt (h : l + lines < UInt32.size) : (l.below lines : Nat) = l + lines := by
  rw [val_below, Nat.mod_eq_of_lt h]

@[simp] theorem below_zero : l.below 0 = l :=
  Fin.ext (l.val_below_of_lt 0 l.isLt)

/-- Going down twice is going down by both numbers of lines together. -/
@[simp] theorem below_below : (l.below lines).below more = l.below (lines + more) := by
  apply Fin.ext
  rw [val_below, val_below, val_below, Nat.mod_add_mod, Nat.add_assoc]

/-- A line number is kept when it is taken for a number and back. -/
theorem ofNat_val : Fin.ofNat UInt32.size l = l :=
  Fin.ext (Nat.mod_eq_of_lt l.isLt)

end LineNumber

/-! ## Spans -/

/-- The bytes from `start` up to but not including `stop`, opened on `line`.
Offsets count from zero, lines from one. -/
structure Span where
  start : Nat
  stop : Nat
  line : LineNumber
deriving DecidableEq, Repr

namespace Span

/-- The largest offset that a span can hold. -/
def maxOffset : Nat := UInt32.size - 1

/-- The span between two offsets; an offset out of reach becomes the last one
in reach. -/
def ofOffsets (start stop line : Nat) : Span :=
  ⟨min start maxOffset, min stop maxOffset, Fin.ofNat _ line⟩

@[simp] theorem ofOffsets_line (start stop : Nat) (line : LineNumber) :
    (ofOffsets start stop line).line = line :=
  line.ofNat_val

/-- The empty span at an offset. -/
def point (offset line : Nat) : Span :=
  ofOffsets offset offset line

/-- The span of a message that belongs to no place in a text. -/
def nowhere : Span := ⟨0, 0, 0⟩

/-- The number of bytes covered. Offsets are 32-bit words and so is their
difference. -/
def length (s : Span) : Nat :=
  (s.stop + (maxOffset + 1) - s.start) % (maxOffset + 1)

/-- Whether no byte is covered. -/
def isEmpty (s : Span) : Bool :=
  s.start == s.stop

/-- The short form `start..stop@line`. -/
def text (s : Span) : String :=
  toString s.start ++ ".." ++ toString s.stop ++ "@" ++ toString s.line

/-- Offsets in order and in reach lose nothing to the 32 bits, so the length is their
difference. -/
theorem length_of_le {s : Span} (h : s.start ≤ s.stop) (hs : s.stop ≤ maxOffset) :
    s.length = s.stop - s.start := by
  unfold length maxOffset UInt32.size at *
  omega

end Span

end Lox
