/-
`Lox.Text.Blank` -- the characters that count as blank space, and cutting them
off at the two ends of a text.

The class is the Unicode property White_Space, 25 code points in ten ranges. It
is wider than ASCII: a program may be indented with no-break or ideographic
spaces, and a line typed at the prompt is trimmed of the same characters. The
ranges are a table, so a statement about the class is a statement about ten
intervals.
-/

set_option autoImplicit false

namespace Lox.Text

/-! ## The class -/

/-- The code points with the property White_Space, as closed ranges. -/
def blankRanges : List (Nat × Nat) :=
  [(0x9, 0xD), (0x20, 0x20), (0x85, 0x85), (0xA0, 0xA0), (0x1680, 0x1680), (0x2000, 0x200A),
    (0x2028, 0x2029), (0x202F, 0x202F), (0x205F, 0x205F), (0x3000, 0x3000)]

/-- Whether a code point lies in one of the closed ranges of a table. -/
def inRanges (ranges : List (Nat × Nat)) (n : Nat) : Bool :=
  ranges.any fun r => r.1 ≤ n && n ≤ r.2

/-- Whether the ranges of a table ascend and do not overlap. -/
def ascends (ranges : List (Nat × Nat)) : Bool :=
  (ranges.zip ranges.tail).all fun p => p.1.2 < p.2.1

/-- Whether a character is blank space. -/
def isBlank (c : Char) : Bool :=
  inRanges blankRanges c.toNat

example : ascends blankRanges = true := by decide

example : isBlank ' ' = true ∧ isBlank '\n' = true ∧ isBlank '\u3000' = true := by decide

/-- The zero-width space and the byte order mark are not blank: a program that
begins with one of them begins with a stray character. -/
example : isBlank '\u200b' = false ∧ isBlank '\ufeff' = false := by decide

/-- Whether a character ends a line. All of them are blank space. -/
def breaksLine (c : Char) : Bool :=
  inRanges [(0xA, 0xD), (0x85, 0x85), (0x2028, 0x2029)] c.toNat

/-! ## Trimming -/

/-- A text without the characters of a class at its end. -/
def dropTrailing (p : Char → Bool) (cs : List Char) : List Char :=
  (cs.reverse.dropWhile p).reverse

/-- A text without blank space at its two ends. -/
def trimBlank (s : String) : String :=
  String.ofList (dropTrailing isBlank (s.toList.dropWhile isBlank))

end Lox.Text
