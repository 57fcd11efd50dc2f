/-
`Lox.Proofs.Token.Lexeme` -- which texts are lexemes, and of which kind.

The rules do not say how a text is cut. An operator or a reserved word is an
entry of a table, a name is a word that is not reserved, a number is digits with
perhaps a point among them, and a string is anything without a quote between two
quotes. They are told apart by their first character, which is what the lemmas
at the end are about: knowing it, a lexeme has only one rule that it can be of.

That a lexeme is as long as it can be (`Longest`) is said of all kinds at once:
no characters of those that follow make it a longer lexeme, of any kind.
-/
import Lox.Token.Piece

set_option autoImplicit false

namespace Lox

/-! ## The rules -/

namespace Lexeme

/-- The operators and the marks, with their kinds. -/
def operators : List (List Char × TokenKind) :=
  [(['('], .leftParen), ([')'], .rightParen), (['\x7b'], .leftBrace), (['\x7d'], .rightBrace),
    ([','], .comma), (['.'], .dot), ([';'], .semicolon), (['-'], .minus), (['+'], .plus),
    (['/'], .slash), (['*'], .star), (['!'], .bang), (['!', '='], .bangEqual), (['='], .equal),
    (['=', '='], .equalEqual), (['>'], .greater), (['>', '='], .greaterEqual), (['<'], .less),
    (['<', '='], .lessEqual)]

/-- The reserved words, with their kinds. -/
def reserved : List (String × TokenKind) :=
  [("and", .kwAnd), ("class", .kwClass), ("else", .kwElse), ("false", .kwFalse), ("for", .kwFor),
    ("fun", .kwFun), ("if", .kwIf), ("nil", .kwNil), ("or", .kwOr), ("print", .kwPrint),
    ("return", .kwReturn), ("super", .kwSuper), ("this", .kwThis), ("true", .kwTrue),
    ("var", .kwVar), ("while", .kwWhile)]

/-- The shape of names and of reserved words. -/
def IsWord : List Char → Prop
  | [] => False
  | c :: cs => (c.isAlpha ∨ c = '_') ∧ ∀ d ∈ cs, d.isAlphanum ∨ d = '_'

/-- One digit at least, and nothing else. -/
def IsDigits (text : List Char) : Prop :=
  text ≠ [] ∧ ∀ d ∈ text, d.isDigit

end Lexeme

/-- A text that is a token of a kind. -/
inductive Lexeme : TokenKind → List Char → Prop
  | operator {kind : TokenKind} {text : List Char} :
    (text, kind) ∈ Lexeme.operators → Lexeme kind text
  | keyword {kind : TokenKind} {text : List Char} :
    Lexeme.IsWord text → (String.ofList text, kind) ∈ Lexeme.reserved → Lexeme kind text
  | name {text : List Char} :
    Lexeme.IsWord text → (∀ kind, (String.ofList text, kind) ∉ Lexeme.reserved) →
    Lexeme .identifier text
  | whole {text : List Char} : Lexeme.IsDigits text → Lexeme .number text
  | fraction {text places : List Char} :
    Lexeme.IsDigits text → Lexeme.IsDigits places → Lexeme .number (text ++ '.' :: places)
  | string {body : List Char} : '"' ∉ body → Lexeme .string ('"' :: (body ++ ['"']))

/-- None of the characters that follow a text, one or more, extend it to a
lexeme. -/
def Longest (text after : List Char) : Prop :=
  ∀ c cs kind, c :: cs <+: after → ¬ Lexeme kind (text ++ c :: cs)

namespace Lexeme

/-! ## The tables -/

/-- The table of operators in terms of the character they begin with. -/
theorem mem_operators_iff {kind : TokenKind} {c : Char} {cs : List Char} :
    (c :: cs, kind) ∈ operators ↔
      cs = [] ∧ Piece.ofSingle? c = some kind ∨
      cs = [] ∧ (∃ paired, Piece.ofPaired? c = some (kind, paired)) ∨
      cs = ['='] ∧ ∃ single, Piece.ofPaired? c = some (single, kind) := by
  constructor
  · intro h
    simp only [operators, List.mem_cons, Prod.mk.injEq, List.cons.injEq, List.not_mem_nil,
      or_false] at h
    rcases h with h | h | h | h | h | h | h | h | h | h | h | h | h | h | h | h | h | h | h <;>
      · obtain ⟨⟨rfl, rfl⟩, rfl⟩ := h
        simp [Piece.ofSingle?, Piece.ofPaired?]
  · rintro (⟨rfl, h⟩ | ⟨rfl, paired, h⟩ | ⟨rfl, single, h⟩)
    · unfold Piece.ofSingle? at h
      split at h <;> simp_all [operators]
    · unfold Piece.ofPaired? at h
      split at h <;> simp_all [operators]
    · unfold Piece.ofPaired? at h
      split at h <;> simp_all [operators]

/-- Operators begin with no letter, no digit and no quote. -/
theorem head_of_mem_operators {kind : TokenKind} {c : Char} {cs : List Char}
    (h : (c :: cs, kind) ∈ operators) :
    ¬ (c.isAlpha ∨ c = '_') ∧ ¬ c.isDigit ∧ c ≠ '"' := by
  have htable : ∀ entry ∈ operators, ∀ d ∈ entry.1.head?,
      ¬ (d.isAlpha ∨ d = '_') ∧ ¬ d.isDigit ∧ d ≠ '"' := by simp [operators]
  exact htable _ h c rfl

/-- The table of reserved words is the one that words are looked up in. -/
theorem mem_reserved_iff {word : String} {kind : TokenKind} :
    (word, kind) ∈ reserved ↔ TokenKind.ofKeyword? word = some kind := by
  constructor
  · intro h
    have htable : ∀ entry ∈ reserved, TokenKind.ofKeyword? entry.1 = some entry.2 := by decide
    exact htable _ h
  · intro h
    have htable : ∀ entry ∈ TokenKind.keywords, entry ∈ reserved := by decide
    obtain ⟨before, after, hsplit, -⟩ := List.lookup_eq_some_iff.mp h
    apply htable
    rw [hsplit]
    exact List.mem_append_right before List.mem_cons_self

/-! ## What a lexeme is, by its first character -/

/-- What begins a word begins no number. -/
theorem not_isDigit_of_letter {c : Char} (h : c.isAlpha ∨ c = '_') : ¬ c.isDigit := by
  rcases h with h | rfl
  · -- letters come behind the digits, in both cases
    intro hdigit
    have hnine : c.val.toNat ≤ 57 := of_decide_eq_true (Bool.and_eq_true_iff.mp hdigit).2
    rcases Bool.or_eq_true_iff.mp h with hupper | hlower
    · have hle : 65 ≤ c.val.toNat := (of_decide_eq_true hupper).1
      omega
    · have hle : 97 ≤ c.val.toNat := of_decide_eq_true (Bool.and_eq_true_iff.mp hlower).1
      omega
  · decide

/-- Digits are digits one by one. -/
theorem isDigits_cons_iff {c : Char} {cs : List Char} :
    IsDigits (c :: cs) ↔ c.isDigit ∧ ∀ d ∈ cs, d.isDigit := by
  simp [IsDigits]

/-- A lexeme has a first character. -/
theorem ne_nil {kind : TokenKind} {text : List Char} (h : Lexeme kind text) : text ≠ [] := by
  cases h with
  | operator hmem =>
    have htable : ∀ entry ∈ operators, entry.1 ≠ [] := by decide
    exact htable _ hmem
  | keyword hword _ | name hword _ =>
    rintro rfl
    exact hword
  | whole hdigits => exact hdigits.1
  | fraction _ _ => simp
  | string _ => simp

/-- A lexeme by the class of its first character. Of which kind a word is can be
looked up. A number is described by what stands behind its first digits. -/
theorem cons_cases {kind : TokenKind} {c : Char} {cs : List Char} (h : Lexeme kind (c :: cs)) :
    (c :: cs, kind) ∈ operators ∨
      (c.isAlpha ∨ c = '_') ∧ kind = .ofWord (String.ofList (c :: cs)) ∧
        (∀ d ∈ cs, d.isAlphanum ∨ d = '_') ∨
      c.isDigit ∧ (cs.dropWhile Char.isDigit = [] ∨
        ∃ places, cs.dropWhile Char.isDigit = '.' :: places ∧ IsDigits places) ∨
      c = '"' ∧ ∃ body, cs = body ++ ['"'] ∧ '"' ∉ body := by
  -- the rules do not show a first character, so the text gets a name before the cases
  generalize htext : c :: cs = text at h
  cases h with
  | operator hmem => exact .inl (htext ▸ hmem)
  | keyword hword hmem =>
    have hkind : kind = .ofWord (String.ofList text) := by
      rw [TokenKind.ofWord, mem_reserved_iff.mp hmem, Option.getD_some]
    subst htext
    exact .inr (.inl ⟨hword.1, hkind, hword.2⟩)
  | name hword hnone =>
    have hkind : .identifier = TokenKind.ofWord (String.ofList text) := by
      rcases hfound : TokenKind.ofKeyword? (String.ofList text) with _ | kind
      · rw [TokenKind.ofWord, hfound, Option.getD_none]
      · exact absurd (mem_reserved_iff.mpr hfound) (hnone kind)
    subst htext
    exact .inr (.inl ⟨hword.1, hkind, hword.2⟩)
  | whole hdigits =>
    rw [← htext, isDigits_cons_iff] at hdigits
    have hnone : cs.dropWhile Char.isDigit = [] := by
      have hall : (cs ++ []).dropWhile Char.isDigit = [].dropWhile Char.isDigit :=
        List.dropWhile_append_of_pos hdigits.2
      rwa [List.append_nil] at hall
    exact .inr (.inr (.inl ⟨hdigits.1, .inl hnone⟩))
  | @fraction text places hdigits hplaces =>
    obtain ⟨c', cs', rfl⟩ := List.exists_cons_of_ne_nil hdigits.1
    rw [isDigits_cons_iff] at hdigits
    rw [List.cons_append, List.cons.injEq] at htext
    -- the point is the first character that is no digit
    have hpoint : cs.dropWhile Char.isDigit = '.' :: places := by
      rw [htext.2, List.dropWhile_append_of_pos hdigits.2]
      rfl
    rw [htext.1]
    exact .inr (.inr (.inl ⟨hdigits.1, .inr ⟨places, hpoint, hplaces⟩⟩))
  | @string body hbody =>
    rw [List.cons.injEq] at htext
    exact .inr (.inr (.inr ⟨htext.1, body, htext.2, hbody⟩))

variable {kind : TokenKind} {c : Char} {cs : List Char}

/-- What begins with a letter is a word, and its kind is told by the whole of it. -/
theorem of_letter (h : Lexeme kind (c :: cs)) (hc : c.isAlpha ∨ c = '_') :
    kind = .ofWord (String.ofList (c :: cs)) ∧ ∀ d ∈ cs, d.isAlphanum ∨ d = '_' := by
  rcases cons_cases h with hmem | ⟨-, hrest⟩ | ⟨hdigit, -⟩ | ⟨rfl, -⟩
  · exact absurd hc (head_of_mem_operators hmem).1
  · exact hrest
  · exact absurd hdigit (not_isDigit_of_letter hc)
  · exact absurd hc (by decide)

/-- What begins with a digit is digits, or digits with decimals. -/
theorem of_digit (h : Lexeme kind (c :: cs)) (hc : c.isDigit) :
    cs.dropWhile Char.isDigit = [] ∨
      ∃ places, cs.dropWhile Char.isDigit = '.' :: places ∧ IsDigits places := by
  rcases cons_cases h with hmem | ⟨hletter, -⟩ | ⟨-, hrest⟩ | ⟨rfl, -⟩
  · exact absurd hc (head_of_mem_operators hmem).2.1
  · exact absurd hc (not_isDigit_of_letter hletter)
  · exact hrest
  · exact absurd hc (by decide)

/-- What begins with a quote ends with one, and has none between. -/
theorem of_quote (h : Lexeme kind ('"' :: cs)) : ∃ body, cs = body ++ ['"'] ∧ '"' ∉ body := by
  rcases cons_cases h with hmem | ⟨hletter, -⟩ | ⟨hdigit, -⟩ | ⟨-, hbody⟩
  · exact absurd rfl (head_of_mem_operators hmem).2.2
  · exact absurd hletter (by decide)
  · exact absurd hdigit (by decide)
  · exact hbody

/-- What begins with anything else is an operator or a mark. -/
theorem of_mark (h : Lexeme kind (c :: cs)) (hletter : ¬ (c.isAlpha ∨ c = '_'))
    (hdigit : ¬ c.isDigit) (hquote : c ≠ '"') : (c :: cs, kind) ∈ operators := by
  rcases cons_cases h with hmem | ⟨hc, -⟩ | ⟨hc, -⟩ | ⟨hc, -⟩
  · exact hmem
  · exact absurd hc hletter
  · exact absurd hc hdigit
  · exact absurd hc hquote

/-! ## What a lexeme is, by its kind -/

/-- A word is of another kind than names exactly if it is in the table with that
kind. -/
theorem kind_eq_iff_mem_reserved {text : List Char} {kind' : TokenKind} (h : Lexeme kind text)
    (hword : IsWord text) (hkind : kind' ≠ .identifier) :
    kind = kind' ↔ (String.ofList text, kind') ∈ reserved := by
  obtain ⟨c, cs, rfl⟩ := List.exists_cons_of_ne_nil h.ne_nil
  rw [(of_letter h hword.1).1, mem_reserved_iff, TokenKind.ofWord]
  rcases TokenKind.ofKeyword? (String.ofList (c :: cs)) with _ | found
  · simpa using hkind.symm
  · simp

/-- A string is a text in quotes. -/
theorem of_string {text : List Char} (h : Lexeme .string text) :
    ∃ body, text = '"' :: (body ++ ['"']) := by
  generalize hkind : TokenKind.string = kind at h
  cases h with
  | operator hmem =>
    have htable : ∀ entry ∈ operators, entry.2 ≠ .string := by decide
    exact absurd hkind.symm (htable _ hmem)
  | keyword _ hmem =>
    have htable : ∀ entry ∈ reserved, entry.2 ≠ .string := by decide
    exact absurd hkind.symm (htable _ hmem)
  | string _ => exact ⟨_, rfl⟩
  | _ => exact absurd hkind (by decide)

/-- The end of a text is no lexeme. -/
theorem ne_eof {text : List Char} (h : Lexeme kind text) : kind ≠ .eof := by
  cases h with
  | operator hmem =>
    have htable : ∀ entry ∈ operators, entry.2 ≠ .eof := by decide
    exact htable _ hmem
  | keyword _ hmem =>
    have htable : ∀ entry ∈ reserved, entry.2 ≠ .eof := by decide
    exact htable _ hmem
  | _ => decide

/-- A name is no reserved word. -/
theorem not_mem_reserved {text : List Char} (h : Lexeme .identifier text)
    (kind : TokenKind) : (String.ofList text, kind) ∉ reserved := by
  generalize hidentifier : TokenKind.identifier = kind' at h
  cases h with
  | operator hmem =>
    have htable : ∀ entry ∈ operators, entry.2 ≠ .identifier := by decide
    exact absurd hidentifier.symm (htable _ hmem)
  | keyword _ hmem =>
    have htable : ∀ entry ∈ reserved, entry.2 ≠ .identifier := by decide
    exact absurd hidentifier.symm (htable _ hmem)
  | name _ hfree => exact hfree kind
  | _ => exact absurd hidentifier (by decide)

end Lexeme

end Lox
