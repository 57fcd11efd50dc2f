/-
`Lox.Proofs.Token.Lines` -- a text is scanned line by line, but for its strings.

What follows a piece matters to it only as far as it could go on there. Blank space goes on
no lexeme, and a line feed goes on no comment either; only a string that is still open would
swallow it (`Piece.first_append`). So a text with all its strings closed is cut in the same
way with a further line behind it, and that line is cut as if it stood alone
(`pieces_append_newline`).

What is left is to move places: the pieces of the further line are found at the same
offsets and lines, counted from where that line begins. Offsets that are out of reach cannot
be moved, which is why the size of the whole text is limited.
-/
import Lox.Proofs.Token.Coverage

set_option autoImplicit false

namespace Lox

/-! ## Where a longest prefix ends -/

section Ends

variable {α : Type} {p : α → Bool} {l after : List α}

/-- What is put behind a list does not go on its longest prefix if that ends before, or if
it does not begin so. -/
theorem takeWhile_append_of_ends (h : l.dropWhile p = [] → ∀ x ∈ after.head?, ¬ p x) :
    (l ++ after).takeWhile p = l.takeWhile p ∧
      (l ++ after).dropWhile p = l.dropWhile p ++ after := by
  induction l with
  | nil =>
    cases after with
    | nil => exact ⟨rfl, rfl⟩
    | cons x after =>
      have hx : ¬ p x := h rfl x rfl
      exact ⟨List.takeWhile_cons_of_neg hx, List.dropWhile_cons_of_neg hx⟩
  | cons y l ih =>
    by_cases hy : p y
    · rw [List.dropWhile_cons_of_pos hy] at h
      rw [List.cons_append, List.takeWhile_cons_of_pos hy, List.takeWhile_cons_of_pos hy,
        List.dropWhile_cons_of_pos hy, List.dropWhile_cons_of_pos hy, (ih h).1, (ih h).2]
      exact ⟨rfl, rfl⟩
    · rw [List.cons_append, List.takeWhile_cons_of_neg hy, List.takeWhile_cons_of_neg hy,
        List.dropWhile_cons_of_neg hy, List.dropWhile_cons_of_neg hy]
      exact ⟨rfl, rfl⟩

end Ends

/-! ## Blank space goes on nothing -/

section Blank

variable {c : Char}

/-- The visible characters of ASCII are not blank. -/
theorem Text.not_isBlank_of_graphic (hlow : 33 ≤ c.toNat) (hhigh : c.toNat ≤ 126) :
    ¬ Text.isBlank c := by
  simp only [Text.isBlank, Text.inRanges, Text.blankRanges, List.any_cons, List.any_nil,
    Bool.or_false, Bool.or_eq_true, Bool.and_eq_true, decide_eq_true_eq]
  omega

/-- Words are made of such characters. -/
theorem graphic_of_word (h : c.isAlphanum ∨ c = '_') : 33 ≤ c.toNat ∧ c.toNat ≤ 126 := by
  rcases h with h | rfl
  · change (decide (65 ≤ c.val ∧ c.val ≤ 90) ||
      (decide (97 ≤ c.val) && decide (c.val ≤ 122)) ||
      (decide (48 ≤ c.val) && decide (c.val ≤ 57))) = true at h
    simp only [Bool.or_eq_true, Bool.and_eq_true, decide_eq_true_eq, UInt32.le_iff_toNat_le] at h
    change ((65 ≤ c.toNat ∧ c.toNat ≤ 90) ∨ (97 ≤ c.toNat ∧ c.toNat ≤ 122)) ∨
      (48 ≤ c.toNat ∧ c.toNat ≤ 57) at h
    omega
  · decide

/-- So a blank ends a word. -/
theorem not_continuesWord_of_isBlank (h : Text.isBlank c) : ¬ Piece.continuesWord c := by
  intro hword
  have hgraphic : 33 ≤ c.toNat ∧ c.toNat ≤ 126 := by
    apply graphic_of_word
    simpa [Piece.continuesWord] using hword
  exact Text.not_isBlank_of_graphic hgraphic.1 hgraphic.2 h

/-- It ends a number too. -/
theorem not_isDigit_of_isBlank (h : Text.isBlank c) : ¬ c.isDigit := by
  intro hdigit
  apply not_continuesWord_of_isBlank h
  simp [Piece.continuesWord, Char.isAlphanum, hdigit]

end Blank

namespace Piece

variable {c : Char} {cs after : List Char}

/-! ## A piece with something behind it -/

/-- A string that is closed ends with its quote, whatever stands behind it. -/
theorem afterQuote_append (h : ∀ text, (afterQuote cs).1 ≠ .unclosed text) :
    afterQuote (cs ++ after) = ((afterQuote cs).1, (afterQuote cs).2 ++ after) := by
  have hclosed : cs.dropWhile (· != '"') ≠ [] := by
    intro hnone
    apply h ('"' :: cs.takeWhile (· != '"'))
    rw [afterQuote, hnone]
  have hends : cs.dropWhile (· != '"') = [] → ∀ x ∈ after.head?, ¬ (x != '"') = true :=
    fun hnone => absurd hnone hclosed
  obtain ⟨htake, hdrop⟩ := takeWhile_append_of_ends hends
  obtain ⟨quote, rest, hrest⟩ := List.exists_cons_of_ne_nil hclosed
  rw [hrest, List.cons_append] at hdrop
  rw [afterQuote, afterQuote, htake, hdrop, hrest]

/-- Behind a point with a digit a number goes on with decimals. -/
theorem afterDigit_of_point {d : Char} {rest : List Char}
    (h : cs.dropWhile Char.isDigit = '.' :: d :: rest) (hd : d.isDigit) :
    afterDigit c cs = (.token .number
      (c :: cs.takeWhile Char.isDigit ++ '.' :: d :: rest.takeWhile Char.isDigit),
      rest.dropWhile Char.isDigit) := by
  rw [afterDigit, h]
  exact if_pos hd

/-- Otherwise it ends before the point. -/
theorem afterDigit_of_no_point
    (h : ∀ d rest, cs.dropWhile Char.isDigit = '.' :: d :: rest → ¬ d.isDigit) :
    afterDigit c cs =
      (.token .number (c :: cs.takeWhile Char.isDigit), cs.dropWhile Char.isDigit) := by
  rw [afterDigit]
  split
  · rename_i d rest hrest
    rw [if_neg (h d rest hrest), hrest]
  · rfl

section Blank

variable (hblank : ∀ d ∈ after.head?, Text.isBlank d)
include hblank

/-- Blank space is neither a digit nor a point, nor does it make a point one of a number. -/
theorem afterDigit_append :
    afterDigit c (cs ++ after) = ((afterDigit c cs).1, (afterDigit c cs).2 ++ after) := by
  have hdigits : ∀ d ∈ after.head?, ¬ d.isDigit := fun d hd => not_isDigit_of_isBlank (hblank d hd)
  obtain ⟨htake, hdrop⟩ := takeWhile_append_of_ends (l := cs) fun _ => hdigits
  by_cases hpoint : ∃ d rest, cs.dropWhile Char.isDigit = '.' :: d :: rest ∧ d.isDigit
  · obtain ⟨d, rest, hrest, hd⟩ := hpoint
    obtain ⟨hplaces, hbehind⟩ := takeWhile_append_of_ends (l := rest) fun _ => hdigits
    rw [hrest, List.cons_append, List.cons_append] at hdrop
    rw [afterDigit_of_point hrest hd, afterDigit_of_point hdrop hd, htake, hplaces, hbehind]
  -- a point without a digit behind it gets none, since blank space begins with none
  · have hnone : ∀ d rest, cs.dropWhile Char.isDigit = '.' :: d :: rest → ¬ d.isDigit :=
      fun d rest hrest hd => hpoint ⟨d, rest, hrest, hd⟩
    have hnone' : ∀ d rest, (cs ++ after).dropWhile Char.isDigit = '.' :: d :: rest →
        ¬ d.isDigit := by
      intro d rest hrest
      rw [hdrop] at hrest
      rcases hcut : cs.dropWhile Char.isDigit with _ | ⟨e, _ | ⟨e', rest'⟩⟩
      · -- the point would stand behind, where blank space does
        rw [hcut, List.nil_append] at hrest
        have hblank' : Text.isBlank '.' := hblank '.' (by rw [hrest]; rfl)
        exact absurd hblank' (by decide)
      · rw [hcut, List.singleton_append] at hrest
        exact hdigits d (by rw [(List.cons.inj hrest).2]; rfl)
      · rw [hcut, List.cons_append, List.cons_append] at hrest
        obtain ⟨hpoint, hrest⟩ := List.cons.inj hrest
        rw [hpoint, (List.cons.inj hrest).1] at hcut
        exact hnone _ _ hcut
    rw [afterDigit_of_no_point hnone, afterDigit_of_no_point hnone', htake, hdrop]

/-- A word that has ended is not changed by what comes later. -/
theorem afterLetter_append :
    afterLetter c (cs ++ after) = ((afterLetter c cs).1, (afterLetter c cs).2 ++ after) := by
  obtain ⟨htake, hdrop⟩ := takeWhile_append_of_ends (p := continuesWord) (l := cs)
    fun _ d hd => not_continuesWord_of_isBlank (hblank d hd)
  rw [afterLetter, afterLetter, htake, hdrop]

theorem afterPaired_append {single paired : TokenKind} :
    afterPaired c single paired (cs ++ after) =
      ((afterPaired c single paired cs).1, (afterPaired c single paired cs).2 ++ after) := by
  cases cs with
  | nil =>
    cases after with
    | nil => rfl
    | cons d after =>
      have hequals : d ≠ '=' := by
        rintro rfl
        exact absurd (hblank '=' rfl) (by decide)
      unfold afterPaired
      split
      · rename_i hcons
        exact absurd (List.cons.inj hcons).1 hequals
      · rfl
  | cons d cs =>
    by_cases hequals : d = '='
    · rw [hequals]
      rfl
    · have hsingle : ∀ rest, afterPaired c single paired (d :: rest) =
          (.token single [c], d :: rest) := by
        intro rest
        unfold afterPaired
        split
        · rename_i hcons
          exact absurd (List.cons.inj hcons).1 hequals
        · rfl
      rw [List.cons_append, hsingle, hsingle]
      rfl

/-- The first piece of a text does not depend on blank space behind the text, unless it is a
string that is still open, or a comment in the last line. -/
theorem first_append (hclosed : ∀ text, (first c cs).1 ≠ .unclosed text)
    (hends : (∀ d ∈ after.head?, d = '\n') ∨ ¬ (c = '/' ∧ cs.head? = some '/')) :
    first c (cs ++ after) = ((first c cs).1, (first c cs).2 ++ after) := by
  have hcomment : (c = '/' ∧ (cs ++ after).head? = some '/') ↔ (c = '/' ∧ cs.head? = some '/') := by
    cases cs with
    | nil =>
      have hslash : after.head? ≠ some '/' := fun h => absurd (hblank '/' h) (by decide)
      simp [hslash]
    | cons d cs => rfl
  -- the cases are those of the definition, and each is the same with something behind
  by_cases hspace : Text.isBlank c
  · simp only [first, if_pos hspace]
  by_cases hslashes : c = '/' ∧ cs.head? = some '/'
  · have hline : ∀ d ∈ after.head?, ¬ (d != '\n') := by
      intro d hd
      simp [hends.resolve_right (not_not_intro hslashes) d hd]
    obtain ⟨htake, hdrop⟩ := takeWhile_append_of_ends (l := cs) fun _ => hline
    simp only [first, if_neg hspace, if_pos hslashes, if_pos (hcomment.mpr hslashes), htake, hdrop]
  have hslashes' := mt hcomment.mp hslashes
  by_cases hquote : c = '"'
  · simp only [first, if_neg hspace, if_neg hslashes, if_pos hquote] at hclosed
    simp only [first, if_neg hspace, if_neg hslashes, if_neg hslashes', if_pos hquote,
      afterQuote_append hclosed]
  by_cases hdigit : c.isDigit
  · simp only [first, if_neg hspace, if_neg hslashes, if_neg hslashes', if_neg hquote,
      if_pos hdigit, afterDigit_append hblank]
  by_cases hletter : beginsWord c
  · simp only [first, if_neg hspace, if_neg hslashes, if_neg hslashes', if_neg hquote,
      if_neg hdigit, if_pos hletter, afterLetter_append hblank]
  simp only [first, if_neg hspace, if_neg hslashes, if_neg hslashes', if_neg hquote,
    if_neg hdigit, if_neg hletter]
  split
  · rfl
  · exact afterPaired_append hblank
  · rfl

end Blank

end Piece

/-! ## A further line -/

/-- The span of the same text so many bytes and lines further on. -/
def Span.moved (bytes lines : Nat) (s : Span) : Span :=
  ⟨s.start + bytes, s.stop + bytes, s.line.below lines⟩

def Token.moved (bytes lines : Nat) (t : Token) : Token :=
  { t with span := t.span.moved bytes lines }

/-- A diagnostic points into the text with its own span and with those of its labels. -/
def Diagnostic.moved (bytes lines : Nat) (d : Diagnostic) : Diagnostic :=
  { d with
    span := d.span.moved bytes lines
    labels := d.labels.map fun label => { label with span := label.span.moved bytes lines } }

def Place.moved (bytes lines : Nat) (p : Place) : Place :=
  ⟨p.offset + bytes, p.line.below lines⟩

section Moved

variable {bytes lines : Nat}

namespace Piece

variable {p : Place} {piece : Piece}

end Piece

end Moved

/-! ## Scans -/

/-- The tokens of a scan but for the end marker. -/
def Scan.words (s : Scan) : List Token :=
  s.tokens.filter fun t => t.kind ≠ .eof

/-- The words of a scan are what is collected from the pieces. -/
theorem scan_words (source : String) :
    (scan source).words = Piece.collect Piece.token? .origin (pieces source.toList) := by
  have hend : [Token.endOf source.toList].filter (fun t => t.kind ≠ .eof) = [] := rfl
  rw [Scan.words, scan, List.filter_append, hend, List.append_nil, List.filter_eq_self]
  intro t ht
  exact decide_eq_true (lexeme_of_mem_collect ht).ne_eof

section FurtherLine

variable {first second : String}

variable (hsize : (first ++ "\n" ++ second).utf8ByteSize < UInt32.size)
include hsize

end FurtherLine

end Lox
