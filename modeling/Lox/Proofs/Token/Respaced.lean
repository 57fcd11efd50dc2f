/-
`Lox.Proofs.Token.Respaced` -- tokens can be written down and scanned again.

A lexeme is what it is by itself: a text that is one is its own first piece, with nothing
left over (`Piece.first_of_lexeme`). Blank space behind it changes nothing, since no lexeme
goes on with blank space and none is a comment. So lexemes with spaces between them are cut
into themselves and the spaces (`pieces_respaced`), whatever text they were taken from and
whatever stood between them there.
-/
import Lox.Proofs.Token.Lines

set_option autoImplicit false

namespace Lox

/-! ## Lexemes by themselves -/

namespace Lexeme

variable {kind kind' : TokenKind} {c : Char} {cs text : List Char}

/-- What begins with a digit is a number. -/
theorem kind_of_digit (h : Lexeme kind (c :: cs)) (hc : c.isDigit) : kind = .number := by
  generalize htext : c :: cs = text at h
  have hword : ∀ {text : List Char}, IsWord text → c :: cs ≠ text := by
    rintro _ hword rfl
    exact not_isDigit_of_letter hword.1 hc
  cases h with
  | operator hmem => exact absurd hc (head_of_mem_operators (htext ▸ hmem)).2.1
  | keyword hletters _ | name hletters _ => exact absurd htext (hword hletters)
  | whole _ | fraction _ _ => rfl
  | string _ =>
    rw [(List.cons.inj htext).1] at hc
    exact absurd hc (by decide)

/-- What begins with a quote is a string. -/
theorem kind_of_quote (h : Lexeme kind ('"' :: cs)) : kind = .string := by
  generalize htext : '"' :: cs = text at h
  cases h with
  | operator hmem => exact absurd rfl (head_of_mem_operators (htext ▸ hmem)).2.2
  | keyword hword _ | name hword _ =>
    rw [← htext] at hword
    exact absurd hword.1 (by decide)
  | whole hdigits =>
    rw [← htext, isDigits_cons_iff] at hdigits
    exact absurd hdigits.1 (by decide)
  | fraction hdigits _ =>
    obtain ⟨d, ds, rfl⟩ := List.exists_cons_of_ne_nil hdigits.1
    rw [List.cons_append] at htext
    rw [← (List.cons.inj htext).1, isDigits_cons_iff] at hdigits
    exact absurd hdigits.1 (by decide)
  | string _ => rfl

/-- A text is a lexeme of one kind only. -/
theorem kind_unique (h : Lexeme kind text) (h' : Lexeme kind' text) : kind = kind' := by
  obtain ⟨c, cs, rfl⟩ := List.exists_cons_of_ne_nil h.ne_nil
  by_cases hletter : c.isAlpha ∨ c = '_'
  · rw [(of_letter h hletter).1, (of_letter h' hletter).1]
  by_cases hdigit : c.isDigit
  · rw [kind_of_digit h hdigit, kind_of_digit h' hdigit]
  by_cases hquote : c = '"'
  · subst hquote
    rw [kind_of_quote h, kind_of_quote h']
  · have htable : ∀ entry ∈ operators, ∀ entry' ∈ operators, entry.1 = entry'.1 →
        entry.2 = entry'.2 := by decide +kernel
    exact htable _ (of_mark h hletter hdigit hquote) _ (of_mark h' hletter hdigit hquote) rfl

/-- No token begins with a blank. -/
theorem not_isBlank (h : Lexeme kind (c :: cs)) : ¬ Text.isBlank c := by
  have htable : ∀ entry ∈ operators,
      entry.1.head?.all fun d => decide (33 ≤ d.toNat ∧ d.toNat ≤ 126) := by decide
  have hgraphic : 33 ≤ c.toNat ∧ c.toNat ≤ 126 := by
    rcases cons_cases h with hmem | ⟨hletter, -⟩ | ⟨hdigit, -⟩ | ⟨rfl, -⟩
    · exact of_decide_eq_true (htable _ hmem)
    · apply graphic_of_word
      rcases hletter with halpha | rfl
      · simp [Char.isAlphanum, halpha]
      · exact .inr rfl
    · apply graphic_of_word
      simp [Char.isAlphanum, hdigit]
    · decide
  exact Text.not_isBlank_of_graphic hgraphic.1 hgraphic.2

/-- No lexeme is a comment. -/
theorem not_slashes (h : Lexeme kind (c :: cs)) : ¬ (c = '/' ∧ cs.head? = some '/') := by
  rintro ⟨rfl, hslash⟩
  have hmem := of_mark h (by decide) (by decide) (by decide)
  obtain ⟨rest, rfl⟩ := List.head?_eq_some_iff.mp hslash
  have htable : ∀ entry ∈ operators, entry.1.tail.head? ≠ some '/' := by decide
  exact htable _ hmem rfl

end Lexeme

namespace Piece

variable {kind : TokenKind} {c : Char} {cs after : List Char}

/-- A lexeme is its own first piece. -/
theorem first_of_lexeme (h : Lexeme kind (c :: cs)) :
    first c cs = (.token kind (c :: cs), []) := by
  have hfits := first_fits c cs
  have hchars := chars_first_append c cs
  generalize first c cs = cut at hfits hchars
  obtain ⟨piece, rest⟩ := cut
  dsimp only at hfits hchars
  -- what else could be cut off begins with a blank, is a comment, or is no lexeme
  cases piece with
  | gap text =>
    rcases hfits with ⟨d, rfl, hd⟩ | ⟨body, rfl, -, -⟩
    · rw [← (List.cons.inj hchars).1] at h
      exact absurd hd h.not_isBlank
    · rw [chars, List.cons_append] at hchars
      obtain ⟨rfl, rfl⟩ := List.cons.inj hchars
      exact absurd ⟨rfl, rfl⟩ h.not_slashes
  | token kind' text =>
    -- a token that ends sooner is not the longest one, as the whole text is a lexeme
    obtain ⟨hlexeme, hlongest, -⟩ := hfits
    replace hchars : text ++ rest = c :: cs := hchars
    cases rest with
    | nil =>
      rw [List.append_nil] at hchars
      subst hchars
      rw [h.kind_unique hlexeme]
    | cons d ds =>
      rw [← hchars] at h
      exact absurd h (hlongest d ds kind List.prefix_rfl)
  | stray d =>
    rw [chars, List.singleton_append] at hchars
    exact absurd h (hfits.2.2 _ kind (hchars ▸ List.prefix_rfl))
  | unclosed text =>
    obtain ⟨⟨body, rfl, hbody⟩, rfl⟩ := hfits
    rw [chars, List.append_nil] at hchars
    obtain ⟨rfl, rfl⟩ := List.cons.inj hchars
    obtain ⟨body', rfl, -⟩ := h.of_quote
    simp at hbody

/-- So a token with a blank behind it is the first piece of its text. -/
theorem first_of_lexeme_append (h : Lexeme kind (c :: cs))
    (hblank : ∀ d ∈ after.head?, Text.isBlank d) :
    first c (cs ++ after) = (.token kind (c :: cs), after) := by
  have hfirst := first_of_lexeme h
  rw [first_append hblank (fun text htext => ?_) (.inr h.not_slashes), hfirst, List.nil_append]
  rw [hfirst] at htext
  cases htext

end Piece

/-! ## Lexemes with spaces between them -/

/-- The token is spelled as its kind demands, and it has the value that its text denotes. -/
structure Token.Spelled (t : Token) : Prop where
  lexeme : Lexeme t.kind t.lexeme.toList
  literal : t.literal = Piece.literal? t.kind t.lexeme.toList

/-- The piece that a token is in a text. -/
def Token.piece (t : Token) : Piece :=
  .token t.kind t.lexeme.toList

/-- What a token says, without its place. -/
def Token.word (t : Token) : TokenKind × String × Option Literal :=
  (t.kind, t.lexeme, t.literal)

/-- Tokens with spaces between them are cut into themselves and the spaces. -/
theorem pieces_respaced {ts : List Token} (hts : ∀ t ∈ ts, t.Spelled) :
    pieces (" ".intercalate (ts.map Token.lexeme)).toList =
      (ts.map Token.piece).intersperse (.gap [' ']) := by
  have hnone : pieces [] = [] := by rw [pieces]
  induction ts with
  | nil => exact hnone
  | cons t rest ih =>
    obtain ⟨ht, hrest⟩ := List.forall_mem_cons.mp hts
    obtain ⟨c, cs, hlexeme⟩ := List.exists_cons_of_ne_nil ht.lexeme.ne_nil
    have hspelled := hlexeme ▸ ht.lexeme
    have hpiece : t.piece = .token t.kind (c :: cs) := congrArg _ hlexeme
    cases rest with
    | nil =>
      rw [List.map_singleton, List.map_singleton, String.intercalate_singleton, hlexeme, pieces,
        Piece.first_of_lexeme hspelled, hnone, hpiece]
      rfl
    | cons u rest =>
      have htext : (" ".intercalate ((t :: u :: rest).map Token.lexeme)).toList =
          c :: (cs ++ ' ' :: (" ".intercalate ((u :: rest).map Token.lexeme)).toList) := by
        rw [List.map_cons, List.map_cons, String.intercalate_cons_cons, String.toList_append,
          String.toList_append, hlexeme, List.append_assoc]
        rfl
      -- a blank is a piece by itself
      have hspace : ∀ after, pieces (' ' :: after) = .gap [' '] :: pieces after := by
        intro after
        rw [pieces]
        rfl
      have hblank : ∀ d ∈ (' ' :: (" ".intercalate ((u :: rest).map Token.lexeme)).toList).head?,
          Text.isBlank d := by
        rintro _ ⟨⟩
        decide
      rw [htext, pieces, Piece.first_of_lexeme_append hspelled hblank, hspace, ih hrest,
        ← hpiece]
      rfl

/-- What a piece says, if it is a token. -/
def Piece.word? : Piece → Option (TokenKind × String × Option Literal)
  | token kind text => some (kind, String.ofList text, literal? kind text)
  | _ => none

/-- What tokens say does not depend on where they are found. -/
theorem map_word_collect (p : Place) (found : List Piece) :
    (Piece.collect Piece.token? p found).map Token.word = found.filterMap Piece.word? := by
  induction found generalizing p with
  | nil => rfl
  | cons piece rest ih =>
    rw [Piece.collect, List.map_append, ih]
    cases piece with
    | token kind text => rfl
    | _ => rfl

/-- A piece says what its token says. -/
theorem Token.Spelled.word?_piece {t : Token} (h : t.Spelled) : t.piece.word? = some t.word := by
  rw [Token.piece, Piece.word?, Token.word, String.ofList_toList, h.literal]

/-- The spaces between say nothing. -/
theorem filterMap_word?_respaced {ts : List Token} (hts : ∀ t ∈ ts, t.Spelled) :
    ((ts.map Token.piece).intersperse (.gap [' '])).filterMap Piece.word? = ts.map Token.word := by
  induction ts with
  | nil => rfl
  | cons t rest ih =>
    obtain ⟨ht, hrest⟩ := List.forall_mem_cons.mp hts
    have hword := ht.word?_piece
    cases rest with
    | nil =>
      rw [List.map_singleton, List.intersperse_singleton, List.filterMap_cons_some hword]
      rfl
    | cons u rest =>
      rw [List.map_cons, List.map_cons, List.intersperse_cons_cons, List.filterMap_cons_some hword,
        List.filterMap_cons_none rfl, ← List.map_cons, ih hrest]
      rfl

/-- Tokens and spaces are no faults. -/
theorem collect_diagnostic?_respaced (p : Place) (ts : List Token) :
    Piece.collect Piece.diagnostic? p ((ts.map Token.piece).intersperse (.gap [' '])) = [] := by
  induction ts generalizing p with
  | nil => rfl
  | cons t rest ih =>
    cases rest with
    | nil => rfl
    | cons u rest =>
      rw [List.map_cons, List.map_cons, List.intersperse_cons_cons, Piece.collect, Piece.collect,
        ← List.map_cons, ih]
      rfl

/-! ## Scans -/

/-- The tokens of a scan are spelled as they should be. -/
theorem spelled_of_mem_words {source : String} {t : Token} (h : t ∈ (scan source).words) :
    t.Spelled := by
  rw [scan_words] at h
  refine ⟨lexeme_of_mem_collect h, ?_⟩
  have hword : t.word ∈ (pieces source.toList).filterMap Piece.word? := by
    rw [← map_word_collect .origin]
    exact List.mem_map_of_mem h
  obtain ⟨piece, -, hpiece⟩ := List.mem_filterMap.mp hword
  cases piece with
  | token kind text =>
    simp only [Piece.word?, Token.word, Option.some.injEq, Prod.mk.injEq] at hpiece
    obtain ⟨hkind, hlexeme, hliteral⟩ := hpiece
    rw [← hkind, ← hlexeme, String.toList_ofList]
    exact hliteral.symm
  | _ => cases hpiece

/-- The tokens say what the words say, and then that the text is over. -/
theorem map_word_scan (source : String) :
    (scan source).tokens.map Token.word =
      (scan source).words.map Token.word ++ [(.eof, "", none)] := by
  rw [scan_words, scan, List.map_append]
  rfl

/-- The lexemes of all tokens but the end marker, with single spaces between them. -/
def Scan.respaced (found : Scan) : String :=
  " ".intercalate (found.words.map Token.lexeme)

/-- **Tokens can be written down and scanned again.** Whatever a text is, and whatever is wrong
with it, its lexemes with single spaces between them are a text that nothing is wrong with, and
the tokens of that text are of the same kinds, with the same lexemes and the same values. -/
theorem scan_respaced (source : String) :
    (scan (scan source).respaced).diagnostics = [] ∧
      (scan (scan source).respaced).words.map Token.word = (scan source).words.map Token.word ∧
      (scan (scan source).respaced).tokens.map Token.word = (scan source).tokens.map Token.word := by
  have hspelled : ∀ t ∈ (scan source).words, t.Spelled := fun _ => spelled_of_mem_words
  have hpieces := pieces_respaced hspelled
  have hwords : (scan (scan source).respaced).words.map Token.word =
      (scan source).words.map Token.word := by
    rw [scan_words (scan source).respaced, map_word_collect, Scan.respaced, hpieces,
      filterMap_word?_respaced hspelled]
  refine ⟨?_, hwords, ?_⟩
  · rw [scan, Scan.respaced, hpieces]
    exact collect_diagnostic?_respaced _ _
  · rw [map_word_scan, map_word_scan, hwords]

/-- Of a text with a stray character, an open string and a comment, the lexemes remain; the
point that was a number's stays with it, and the other one does not. -/
example : (scan "!=#=\"//\"//x\n1.5.or \"").respaced = "!= = \"//\" 1.5 . or" := by
  decide +kernel

end Lox
