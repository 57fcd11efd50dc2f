/-
`Lox.Proofs.Token.Cut` -- where a text may be cut.

`Piece.Fits` says what makes a piece one that a text may be cut into, given the
characters that follow it. A lexeme has to be the longest one and must not be
where a comment begins, a stray character must be one that no lexeme begins with,
and a string without a closing quote has nothing behind it.

The first piece of a text fits (`Piece.first_fits`), which is shown for each of
the ways in which it is cut off.
-/
import Lox.Proofs.Token.Lexeme

set_option autoImplicit false

namespace Lox

/-! ## The ends of longest prefixes -/

section Ends

variable {α : Type} {p : α → Bool} {l : List α} {x : α}

/-- What is taken passes the test. -/
theorem of_mem_takeWhile (h : x ∈ l.takeWhile p) : p x := by
  have hall : (l.takeWhile p).all p = true := List.all_takeWhile
  exact List.all_eq_true.mp hall x h

/-- What comes first in the rest does not. -/
theorem not_of_cons_prefix_dropWhile {xs : List α} (h : x :: xs <+: l.dropWhile p) : ¬ p x := by
  obtain ⟨t, ht, -⟩ := List.cons_prefix_iff.mp h
  have hstop := List.head?_dropWhile_not p l
  rw [ht] at hstop
  exact Bool.not_eq_true _ ▸ hstop

end Ends

/-! ## What a piece has to be -/

/-- A text may be cut behind the piece if these characters follow. -/
def Piece.Fits (after : List Char) : Piece → Prop
  | .gap text =>
    (∃ c, text = [c] ∧ Text.isBlank c) ∨
      ∃ body, text = '/' :: '/' :: body ∧ '\n' ∉ body ∧ ∀ c ∈ after.head?, c = '\n'
  | .token kind text => Lexeme kind text ∧ Longest text after ∧ ¬ ['/', '/'] <+: text ++ after
  | .stray c => ¬ Text.isBlank c ∧ c ≠ '"' ∧ ∀ text kind, text <+: c :: after → ¬ Lexeme kind text
  | .unclosed text => (∃ body, text = '"' :: body ∧ '"' ∉ body) ∧ after = []

namespace Piece

open Lexeme

variable {c : Char} {cs : List Char}

/-- A comment begins with two slashes, so a text with another character in the
first place is none. -/
theorem not_comment (h : c ≠ '/') : ¬ ['/', '/'] <+: c :: cs := by
  intro hfront
  exact h (List.cons_prefix_cons.mp hfront).1.symm

/-! ## The ways in which the first piece is cut off -/

/-- A comment goes on up to the end of its line. -/
theorem comment_fits (h : cs.head? = some '/') :
    (Piece.gap ('/' :: cs.takeWhile (· != '\n'))).Fits (cs.dropWhile (· != '\n')) := by
  obtain ⟨cs', rfl⟩ := List.head?_eq_some_iff.mp h
  refine .inr ⟨cs'.takeWhile (· != '\n'), rfl, ?_, ?_⟩
  · intro hmem
    have hne := of_mem_takeWhile hmem
    exact absurd hne (by decide)
  · intro c hc
    have hfront : [c] <+: ('/' :: cs').dropWhile (· != '\n') := by
      obtain ⟨rest, hrest⟩ := List.head?_eq_some_iff.mp hc
      rw [hrest]
      exact List.cons_prefix_cons.mpr ⟨rfl, List.nil_prefix⟩
    have hstop := not_of_cons_prefix_dropWhile hfront
    simpa using hstop

/-- A string ends at its second quote, and one without a second quote at the end of the text. -/
theorem afterQuote_fits : (afterQuote cs).1.Fits (afterQuote cs).2 := by
  have hbody : '"' ∉ cs.takeWhile (· != '"') := by
    intro hmem
    have hne := of_mem_takeWhile hmem
    exact absurd hne (by decide)
  unfold afterQuote
  split
  · rename_i quote rest hrest
    have hquote : quote = '"' := by
      have hfront : [quote] <+: cs.dropWhile (· != '"') := by
        rw [hrest]
        exact List.cons_prefix_cons.mpr ⟨rfl, List.nil_prefix⟩
      simpa using not_of_cons_prefix_dropWhile hfront
    rw [hquote]
    refine ⟨.string hbody, ?_, not_comment (by decide)⟩
    intro d ds kind _ hlexeme
    -- the closing quote would be within the longer string
    obtain ⟨body, htext, hnone⟩ := of_quote hlexeme
    have hbody' := congrArg List.dropLast htext
    rw [List.append_eq, List.dropLast_append_cons, List.dropLast_concat] at hbody'
    apply hnone
    rw [← hbody']
    simp
  · exact ⟨⟨_, rfl, hbody⟩, rfl⟩

/-- The digits up to a character that is neither a digit nor a point with a digit
behind it are a number that is as long as it can be. -/
theorem whole_longest (hc : c.isDigit)
    (hpoint : ∀ d rest, cs.dropWhile Char.isDigit = '.' :: d :: rest → ¬ d.isDigit) :
    Longest (c :: cs.takeWhile Char.isDigit) (cs.dropWhile Char.isDigit) := by
  intro d ds kind hfront hlexeme
  have hd : ¬ d.isDigit := not_of_cons_prefix_dropWhile hfront
  rw [List.cons_append] at hlexeme
  have hrest : (cs.takeWhile Char.isDigit ++ d :: ds).dropWhile Char.isDigit = d :: ds := by
    rw [List.dropWhile_append_of_pos fun _ => of_mem_takeWhile, List.dropWhile_cons_of_neg hd]
  rcases of_digit hlexeme hc with hnone | ⟨places, hplaces, hdigits⟩
  · rw [hrest] at hnone
    exact absurd hnone (List.cons_ne_nil d ds)
  · -- it would go on with a point and a digit
    rw [hrest, List.cons.injEq] at hplaces
    obtain ⟨rfl, rfl⟩ := hplaces
    obtain ⟨e, es, rfl⟩ := List.exists_cons_of_ne_nil hdigits.1
    obtain ⟨after, hafter⟩ := hfront
    have he : e.isDigit := hdigits.2 e List.mem_cons_self
    exact hpoint e (es ++ after) hafter.symm he

/-- A number with decimals cannot be extended by anything but a digit, and there is none. -/
theorem fraction_longest (hc : c.isDigit) {e : Char} {rest : List Char} :
    Longest (c :: (cs.takeWhile Char.isDigit ++ '.' :: e :: rest.takeWhile Char.isDigit))
      (rest.dropWhile Char.isDigit) := by
  intro d ds kind hfront hlexeme
  have hd : ¬ d.isDigit := not_of_cons_prefix_dropWhile hfront
  rw [List.cons_append, List.append_assoc, List.cons_append] at hlexeme
  have hrest : (cs.takeWhile Char.isDigit ++
      '.' :: (e :: rest.takeWhile Char.isDigit ++ d :: ds)).dropWhile Char.isDigit =
        '.' :: (e :: rest.takeWhile Char.isDigit ++ d :: ds) := by
    rw [List.dropWhile_append_of_pos fun _ => of_mem_takeWhile,
      List.dropWhile_cons_of_neg (by decide)]
  rcases of_digit hlexeme hc with hnone | ⟨places, hplaces, hdigits⟩
  · rw [hrest] at hnone
    exact absurd hnone (List.cons_ne_nil _ _)
  · rw [hrest, List.cons.injEq] at hplaces
    -- everything behind the first point would be a digit, the next character too
    apply hd
    apply hdigits.2
    rw [← hplaces.2]
    simp

/-- So a number is cut where it ends. -/
theorem afterDigit_fits (hc : c.isDigit) : (afterDigit c cs).1.Fits (afterDigit c cs).2 := by
  have hwhole : IsDigits (c :: cs.takeWhile Char.isDigit) :=
    isDigits_cons_iff.mpr ⟨hc, fun _ => of_mem_takeWhile⟩
  have hslash : c ≠ '/' := by
    rintro rfl
    exact absurd hc (by decide)
  unfold afterDigit
  split
  · rename_i d rest hrest
    split
    · rename_i hd
      -- a point with a digit behind it: both runs of digits go on as long as they can
      refine ⟨.fraction hwhole ?_, fraction_longest hc, not_comment hslash⟩
      exact isDigits_cons_iff.mpr ⟨hd, fun _ => of_mem_takeWhile⟩
    · rename_i hd
      -- a point without one is left to be a piece of its own
      have hlongest : Longest (c :: cs.takeWhile Char.isDigit) (cs.dropWhile Char.isDigit) := by
        apply whole_longest hc
        intro d' rest' hrest'
        rw [hrest] at hrest'
        simp only [List.cons.injEq, true_and] at hrest'
        rw [← hrest'.1]
        exact hd
      rw [hrest] at hlongest
      exact ⟨.whole hwhole, hlongest, not_comment hslash⟩
  · rename_i hnone
    refine ⟨.whole hwhole, whole_longest hc ?_, not_comment hslash⟩
    intro d rest hrest
    exact absurd hrest (hnone d rest)

/-- A word goes on as long as it can. -/
theorem afterLetter_fits (hc : c.isAlpha ∨ c = '_') :
    (afterLetter c cs).1.Fits (afterLetter c cs).2 := by
  have hword : IsWord (c :: cs.takeWhile continuesWord) := by
    refine ⟨hc, fun d hd => ?_⟩
    have hd' := of_mem_takeWhile hd
    simpa [continuesWord] using hd'
  have hslash : c ≠ '/' := by
    rintro rfl
    exact absurd hc (by decide)
  refine ⟨?_, ?_, not_comment hslash⟩
  · unfold TokenKind.ofWord
    rcases hkind : TokenKind.ofKeyword? (String.ofList (c :: cs.takeWhile continuesWord)) with
      _ | kind
    · apply Lexeme.name hword
      intro kind hmem
      rw [mem_reserved_iff, hkind] at hmem
      exact absurd hmem (by simp)
    · exact .keyword hword (mem_reserved_iff.mpr hkind)
  · intro d ds kind hfront hlexeme
    have hd : ¬ continuesWord d := not_of_cons_prefix_dropWhile hfront
    apply hd
    have hword' : d.isAlphanum ∨ d = '_' := by
      apply (of_letter hlexeme hc).2
      simp
    simpa [continuesWord] using hword'

/-- What is an operator by itself does not ask for a second character. -/
theorem ofPaired?_of_ofSingle? {kind : TokenKind} (h : ofSingle? c = some kind) :
    ofPaired? c = none := by
  unfold ofSingle? at h
  split at h <;> simp_all [ofPaired?]

/-- A longer lexeme that begins like an operator is one with an equals sign. -/
theorem of_extended {text : List Char} {kind kind' : TokenKind} {d : Char} {ds : List Char}
    (hmem : (c :: text, kind) ∈ operators) (hlexeme : Lexeme kind' (c :: text ++ d :: ds)) :
    text = [] ∧ d = '=' ∧ ∃ single paired, ofPaired? c = some (single, paired) := by
  have hhead := head_of_mem_operators hmem
  have hlonger : (c :: (text ++ d :: ds), kind') ∈ operators :=
    of_mark hlexeme hhead.1 hhead.2.1 hhead.2.2
  rw [mem_operators_iff] at hlonger
  rcases hlonger with ⟨hnil, -⟩ | ⟨hnil, -⟩ | ⟨hequals, single, hsingle⟩
  · simp at hnil
  · simp at hnil
  · rw [List.append_eq_singleton_iff] at hequals
    rcases hequals with ⟨htext, hcons⟩ | ⟨-, hnil⟩
    · rw [List.cons.injEq] at hcons
      exact ⟨htext, hcons.1, single, _, hsingle⟩
    · exact absurd hnil (List.cons_ne_nil d ds)

/-- Such an operator is cut behind it, unless it begins a comment. -/
theorem single_fits {kind : TokenKind} (hkind : ofSingle? c = some kind)
    (hcomment : ¬ (c = '/' ∧ cs.head? = some '/')) : (Piece.token kind [c]).Fits cs := by
  have hmem : ([c], kind) ∈ operators := mem_operators_iff.mpr (.inl ⟨rfl, hkind⟩)
  refine ⟨.operator hmem, ?_, ?_⟩
  · intro d ds kind' _ hlexeme
    obtain ⟨-, -, single, paired, hpaired⟩ := of_extended hmem hlexeme
    rw [ofPaired?_of_ofSingle? hkind] at hpaired
    exact absurd hpaired (by simp)
  · rintro ⟨rest, hrest⟩
    simp only [List.cons_append, List.nil_append, List.cons.injEq] at hrest
    apply hcomment
    rw [← hrest.1, ← hrest.2]
    exact ⟨rfl, rfl⟩

/-- Any other takes an equals sign along if there is one. -/
theorem afterPaired_fits {single paired : TokenKind} (hc : ofPaired? c = some (single, paired)) :
    (afterPaired c single paired cs).1.Fits (afterPaired c single paired cs).2 := by
  have hslash : c ≠ '/' := by
    rintro rfl
    simp [ofPaired?] at hc
  unfold afterPaired
  split
  · have hmem : ([c, '='], paired) ∈ operators :=
      mem_operators_iff.mpr (.inr (.inr ⟨rfl, single, hc⟩))
    refine ⟨.operator hmem, ?_, not_comment hslash⟩
    intro d ds kind _ hlexeme
    have hnil := (of_extended hmem hlexeme).1
    exact absurd hnil (List.cons_ne_nil _ _)
  · rename_i hnone
    have hmem : ([c], single) ∈ operators :=
      mem_operators_iff.mpr (.inr (.inl ⟨rfl, paired, hc⟩))
    refine ⟨.operator hmem, ?_, not_comment hslash⟩
    intro d ds kind hfront hlexeme
    have hequals := (of_extended hmem hlexeme).2.1
    obtain ⟨rest, hrest, -⟩ := List.cons_prefix_iff.mp hfront
    rw [hequals] at hrest
    exact hnone rest hrest

/-- A character that none of the ways of cutting is for. -/
theorem stray_fits (hblank : ¬ Text.isBlank c) (hquote : c ≠ '"') (hdigit : ¬ c.isDigit)
    (hletter : ¬ beginsWord c) (hsingle : ofSingle? c = none) (hpaired : ofPaired? c = none) :
    (Piece.stray c).Fits cs := by
  refine ⟨hblank, hquote, ?_⟩
  intro text kind hfront hlexeme
  obtain ⟨d, ds, rfl⟩ := List.exists_cons_of_ne_nil hlexeme.ne_nil
  rw [List.cons_prefix_cons] at hfront
  rw [hfront.1] at hlexeme
  have hletter' : ¬ (c.isAlpha ∨ c = '_') := by
    simpa [beginsWord] using hletter
  have hmem := of_mark hlexeme hletter' hdigit hquote
  rw [mem_operators_iff, hsingle, hpaired] at hmem
  simp at hmem

/-! ## The first piece -/

/-- The first piece of a text is one that the text may be cut behind. -/
theorem first_fits (c : Char) (cs : List Char) : (first c cs).1.Fits (first c cs).2 := by
  -- the order of the cases is the order in which they are tried
  unfold first
  by_cases hblank : Text.isBlank c
  · rw [if_pos hblank]
    exact .inl ⟨c, rfl, hblank⟩
  rw [if_neg hblank]
  by_cases hcomment : c = '/' ∧ cs.head? = some '/'
  · rw [if_pos hcomment, hcomment.1]
    exact comment_fits hcomment.2
  rw [if_neg hcomment]
  by_cases hquote : c = '"'
  · rw [if_pos hquote]
    exact afterQuote_fits
  rw [if_neg hquote]
  by_cases hdigit : c.isDigit
  · rw [if_pos hdigit]
    exact afterDigit_fits hdigit
  rw [if_neg hdigit]
  by_cases hletter : beginsWord c
  · rw [if_pos hletter]
    apply afterLetter_fits
    simpa [beginsWord] using hletter
  rw [if_neg hletter]
  split
  · rename_i hsingle
    exact single_fits hsingle hcomment
  · rename_i hpaired
    exact afterPaired_fits hpaired
  · rename_i hsingle hpaired
    exact stray_fits hblank hquote hdigit hletter hsingle hpaired

end Piece

end Lox
