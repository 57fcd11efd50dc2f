/-
`Lox.Proofs.Token.Coverage` -- a scan accounts for every byte of a text.

`Covers before rest tokens diagnostics` says how a text is accounted for from some
place on: what stands before the place, what is left, and which tokens and
diagnostics the rest has. Each rule cuts off one piece that fits, and the piece
has a token, or a diagnostic, or it is a gap. What stands before a piece is all
that the offsets and the line of its token depend on.

That a scan covers a text is an induction on the pieces, which carries the place
as what stands before it. The statements about single tokens, that they are
slices and that they ascend, are then read off the rules.
-/
import Lox.Proofs.Token.Cut
import Lox.Proofs.Token.Place

set_option autoImplicit false

namespace Lox

/-! ## Tokens and diagnostics in their places -/

/-- A token that is written as this text, behind those characters. Its span is
the range of its bytes, and its line is the one where it begins. A string has as
its value what stands between the quotes. -/
structure Token.Stands (before text : List Char) (t : Token) : Prop where
  lexeme : t.lexeme = String.ofList text
  start : t.span.start = byteCount before
  stop : t.span.stop = byteCount (before ++ text)
  line : t.span.line = 1 + before.count '\n'
  value : t.kind = .string →
    ∃ body, text = '"' :: (body ++ ['"']) ∧ t.literal = some (.text (String.ofList body))

/-- A diagnostic of a scan with this code, for this text behind those
characters. -/
structure Diagnostic.Marks (code : Code) (before text : List Char) (d : Diagnostic) : Prop where
  stage : d.stage = .lexing
  code : d.code = some code
  start : d.span.start = byteCount before
  stop : d.span.stop = byteCount (before ++ text)

/-! ## Accounting for a text -/

/-- The rest of a text, behind some characters, is made of pieces that fit, and
these are its tokens and its diagnostics. -/
inductive Covers : List Char → List Char → List Token → List Diagnostic → Prop
  | nothing {before : List Char} : Covers before [] [] []
  | gap {before text after : List Char} {tokens : List Token} {diagnostics : List Diagnostic} :
    (Piece.gap text).Fits after → Covers (before ++ text) after tokens diagnostics →
    Covers before (text ++ after) tokens diagnostics
  | token {before text after : List Char} {t : Token} {tokens : List Token}
      {diagnostics : List Diagnostic} :
    (Piece.token t.kind text).Fits after → t.Stands before text →
    Covers (before ++ text) after tokens diagnostics →
    Covers before (text ++ after) (t :: tokens) diagnostics
  | stray {before after : List Char} {c : Char} {d : Diagnostic} {tokens : List Token}
      {diagnostics : List Diagnostic} :
    (Piece.stray c).Fits after → d.Marks .unexpectedCharacter before [c] →
    Covers (before ++ [c]) after tokens diagnostics →
    Covers before ([c] ++ after) tokens (d :: diagnostics)
  | unclosed {before text after : List Char} {d : Diagnostic} {tokens : List Token}
      {diagnostics : List Diagnostic} :
    (Piece.unclosed text).Fits after → d.Marks .unterminatedString before text →
    Covers (before ++ text) after tokens diagnostics →
    Covers before (text ++ after) tokens (d :: diagnostics)

variable {before text after rest : List Char} {tokens : List Token}
  {diagnostics : List Diagnostic}

/-! ### The pieces of a scan -/

/-- The span of a piece that ends within reach. -/
theorem ofOffsets_origin_after (line : LineNumber)
    (hsize : byteCount (before ++ text) ≤ Span.maxOffset) :
    Span.ofOffsets (Place.origin.after before).offset
        ((Place.origin.after before).after text).offset line =
      ⟨byteCount before, byteCount (before ++ text), line⟩ := by
  have hle : byteCount before ≤ byteCount (before ++ text) := by
    rw [byteCount_append]
    omega
  rw [← Place.after_append, Place.origin_after, Place.origin_after]
  exact Span.ofOffsets_of_le hle hsize

/-- The token of a lexeme stands where the lexeme does. -/
theorem token_stands {kind : TokenKind} (hlexeme : Lexeme kind text)
    (hsize : byteCount (before ++ text) ≤ Span.maxOffset) :
    Token.Stands before text ⟨kind, String.ofList text, Piece.literal? kind text,
      .ofOffsets (Place.origin.after before).offset
        ((Place.origin.after before).after text).offset (Place.origin.after before).line⟩ := by
  -- the lexeme itself takes a byte, so the count of lines has not come round before it
  have hbefore : byteCount before < Span.maxOffset := by
    have hpos := byteCount_pos hlexeme.ne_nil
    rw [byteCount_append] at hsize
    omega
  rw [ofOffsets_origin_after _ hsize]
  refine ⟨rfl, rfl, rfl, Place.line_origin_after hbefore, ?_⟩
  rintro (rfl : kind = .string)
  obtain ⟨body, rfl⟩ := hlexeme.of_string
  refine ⟨body, rfl, ?_⟩
  simp [Piece.literal?]

/-- A piece that fits is accounted for by its token or its diagnostic. -/
theorem Covers.piece {piece : Piece} (hfits : piece.Fits after)
    (hsize : byteCount (before ++ piece.chars) ≤ Span.maxOffset)
    (h : Covers (before ++ piece.chars) after tokens diagnostics) :
    Covers before (piece.chars ++ after)
      ((piece.token? (Place.origin.after before)).toList ++ tokens)
      ((piece.diagnostic? (Place.origin.after before)).toList ++ diagnostics) := by
  cases piece with
  | gap text => exact .gap hfits h
  | token kind text => exact .token hfits (token_stands hfits.1 hsize) h
  | stray c =>
    have hspan := ofOffsets_origin_after (Place.origin.after before).line hsize
    refine .stray hfits ⟨rfl, rfl, ?_, ?_⟩ h
    · exact congrArg Span.start hspan
    · exact congrArg Span.stop hspan
  | unclosed text =>
    have hspan := ofOffsets_origin_after
      ((Place.origin.after before).after text).line hsize
    refine .unclosed hfits ⟨rfl, rfl, ?_, ?_⟩ h
    · exact congrArg Span.start hspan
    · exact congrArg Span.stop hspan

/-- What is found in a text, from some place on, covers the text from there. -/
theorem covers_pieces (before cs : List Char)
    (hsize : byteCount (before ++ cs) ≤ Span.maxOffset) :
    Covers before cs (Piece.collect Piece.token? (Place.origin.after before) (pieces cs))
      (Piece.collect Piece.diagnostic? (Place.origin.after before) (pieces cs)) := by
  fun_induction pieces cs generalizing before with
  | case1 => exact .nothing
  | case2 c cs ih =>
    -- the piece and what follows it are the text, so the place moves on by the piece
    have hfits := Piece.first_fits c cs
    have hchars := Piece.chars_first_append c cs
    rw [← hchars, ← List.append_assoc] at hsize
    have hrest := ih (before ++ (Piece.first c cs).1.chars) hsize
    rw [byteCount_append] at hsize
    simp only [Piece.collect]
    rw [← Place.after_append]
    rw [← hchars]
    exact Covers.piece hfits (by omega) hrest

/-- What is collected is found in a piece that fits, at the place behind the characters
before it. -/
theorem Piece.fits_of_collect {α : Type} {f : Place → Piece → Option α} {p : Place} {a : α}
    {cs : List Char} (h : a ∈ collect f p (pieces cs)) :
    ∃ before piece after, cs = before ++ (piece.chars ++ after) ∧ piece.Fits after ∧
      f (p.after before) piece = some a := by
  fun_induction pieces cs generalizing p with
  | case1 => cases h
  | case2 c cs ih =>
    have hchars := chars_first_append c cs
    rcases List.mem_append.mp h with hfirst | hrest
    · exact ⟨[], (first c cs).1, (first c cs).2, hchars.symm, first_fits c cs,
        Option.mem_toList.mp hfirst⟩
    · obtain ⟨before, piece, after, hcs, hfits, hfound⟩ := ih hrest
      refine ⟨(first c cs).1.chars ++ before, piece, after, ?_, hfits, ?_⟩
      · rw [List.append_assoc, ← hcs, hchars]
      · rw [Place.after_append]
        exact hfound

/-! ### Single tokens -/

/-- The token stands somewhere in the rest of a text, behind some characters. -/
def Token.StandsIn (before rest : List Char) (t : Token) : Prop :=
  ∃ between text after, rest = between ++ (text ++ after) ∧ Lexeme t.kind text ∧
    t.Stands (before ++ between) text

/-- A token that stands further on stands there behind more characters. -/
theorem Token.StandsIn.later {t : Token} (h : t.StandsIn (before ++ text) after) :
    t.StandsIn before (text ++ after) := by
  obtain ⟨between, word, after', hafter, hlexeme, hstands⟩ := h
  refine ⟨text ++ between, word, after', ?_, hlexeme, ?_⟩
  · rw [hafter, List.append_assoc]
  · rw [← List.append_assoc]
    exact hstands

/-- No token is empty. -/
theorem Token.StandsIn.start_lt_stop {before rest : List Char} {t : Token}
    (h : t.StandsIn before rest) : t.span.start < t.span.stop := by
  obtain ⟨between, text, after, -, hlexeme, hstands⟩ := h
  have hpos := byteCount_pos hlexeme.ne_nil
  rw [hstands.start, hstands.stop, byteCount_append _ text]
  omega

/-- Each token of a covering stands in its text. -/
theorem Covers.standsIn (h : Covers before rest tokens diagnostics) :
    ∀ t ∈ tokens, t.StandsIn before rest := by
  induction h with
  | nothing => simp
  | gap _ _ ih | stray _ _ _ ih | unclosed _ _ _ ih => exact fun t ht => (ih t ht).later
  | @token before text after t tokens diagnostics hfits hstands _ ih =>
    intro u hu
    rcases List.mem_cons.mp hu with rfl | hu
    · refine ⟨[], text, after, rfl, hfits.1, ?_⟩
      rw [List.append_nil]
      exact hstands
    · exact (ih u hu).later

/-- Each token ends before the next one begins. -/
theorem Covers.pairwise (h : Covers before rest tokens diagnostics) :
    tokens.Pairwise fun t u => t.span.stop ≤ u.span.start := by
  induction h with
  | nothing => exact .nil
  | gap _ _ ih | stray _ _ _ ih | unclosed _ _ _ ih => exact ih
  | token _ hstands hrest ih =>
    refine .cons (fun u hu => ?_) ih
    -- a later token has this one among what stands before it
    obtain ⟨between, _, _, -, -, hlater⟩ := hrest.standsIn u hu
    rw [hstands.stop, hlater.start, byteCount_append _ between]
    omega

/-- What a token says about itself is so in the text: it can be cut out at its
span, and if it is a string then its value can, too. A word has the kind of the
reserved word it is. -/
structure Token.IsIn (source : String) (t : Token) : Prop where
  kind_ne_eof : t.kind ≠ .eof
  slice : IsSlice source t.span.start t.span.stop t.lexeme
  value : t.kind = .string → ∃ body, t.lexeme.toList = '"' :: (body.toList ++ ['"']) ∧
    t.literal = some (.text body) ∧ IsSlice source (t.span.start + 1) (t.span.stop - 1) body
  word : Lexeme.IsWord t.lexeme.toList → ∀ kind, kind ≠ .identifier →
    (t.kind = kind ↔ (t.lexeme, kind) ∈ Lexeme.reserved)

/-- A token that stands in a text can be cut out of it. -/
theorem Token.StandsIn.isIn {source : String} {t : Token} (h : t.StandsIn [] source.toList) :
    t.IsIn source := by
  obtain ⟨before, text, after, hsource, hlexeme, hstands⟩ := h
  have hsource' : source = String.ofList (before ++ (text ++ after)) := by
    rw [← hsource, String.ofList_toList]
  rw [List.nil_append] at hstands
  refine ⟨hlexeme.ne_eof, ?_, ?_, ?_⟩
  · rw [hsource', hstands.start, hstands.stop, hstands.lexeme]
    exact isSlice_of_append before text after
  · intro hkind
    obtain ⟨body, rfl, hvalue⟩ := hstands.value hkind
    refine ⟨String.ofList body, ?_, hvalue, ?_⟩
    · rw [hstands.lexeme, String.toList_ofList, String.toList_ofList]
    · -- the quotes belong to what stands around the value
      have hslice := isSlice_of_append (before ++ ['"']) body ('"' :: after)
      have hquote : byteCount ['"'] = 1 := by decide
      have hstart : t.span.start + 1 = byteCount (before ++ ['"']) := by
        rw [hstands.start, byteCount_append, hquote]
      have hstop : t.span.stop - 1 = byteCount (before ++ ['"'] ++ body) := by
        have hwhole := hstands.stop
        rw [← List.singleton_append] at hwhole
        simp only [byteCount_append, hquote] at hwhole ⊢
        omega
      rw [hsource', hstart, hstop]
      simpa using hslice
  · intro hword kind hkind
    rw [hstands.lexeme] at hword ⊢
    rw [String.toList_ofList] at hword
    exact hlexeme.kind_eq_iff_mem_reserved hword hkind

/-! ## The scan -/

/-- What is collected as tokens are lexemes. -/
theorem lexeme_of_mem_collect {p : Place} {cs : List Char} {t : Token}
    (h : t ∈ Piece.collect Piece.token? p (pieces cs)) : Lexeme t.kind t.lexeme.toList := by
  fun_induction pieces cs generalizing p with
  | case1 => cases h
  | case2 c cs ih =>
    rcases List.mem_append.mp h with h | h
    · have hfits := Piece.first_fits c cs
      cases hpiece : (Piece.first c cs).1 with
      | token kind text =>
        rw [hpiece] at hfits h
        cases List.mem_singleton.mp h
        rw [String.toList_ofList]
        exact hfits.1
      | _ =>
        rw [hpiece] at h
        cases h
    · exact ih h

/-- The tokens of a text are lexemes, and only the end marker is not. -/
theorem lexeme_of_mem_scan {source : String} {t : Token} (h : t ∈ (scan source).tokens)
    (hkind : t.kind ≠ .eof) : Lexeme t.kind t.lexeme.toList := by
  rcases List.mem_append.mp h with h | h
  · exact lexeme_of_mem_collect h
  · exact absurd (congrArg Token.kind (List.mem_singleton.mp h)) hkind

/-- Where all places of a text are in reach, no token stands in it twice. -/
theorem scan_nodup {source : String} (hsize : source.utf8ByteSize < UInt32.size) :
    ((scan source).tokens.filter fun t => t.kind = .identifier).Nodup := by
  have hmax : source.utf8ByteSize ≤ Span.maxOffset := Nat.le_sub_one_of_lt hsize
  have hcovers := covers_pieces [] source.toList (by rwa [List.nil_append, byteCount_toList])
  -- a token ends behind the place where it begins, and the next one begins there or later
  have hnodup : (Piece.collect Piece.token? .origin (pieces source.toList)).Nodup := by
    refine hcovers.pairwise.imp_of_mem fun ht _ hle hsame => ?_
    have hlt := (hcovers.standsIn _ ht).start_lt_stop
    rw [← hsame] at hle
    omega
  have hend : [Token.endOf source.toList].filter (fun t => t.kind = .identifier) = [] := rfl
  rw [scan, List.filter_append, hend, List.append_nil]
  exact hnodup.filter _

/-- The count of lines does not come round while a text is gone through, unless the text is
as long as a text can be and consists of newlines. -/
theorem line_origin_after_of_size {source : String} (hsize : source.utf8ByteSize < UInt32.size)
    (hother : source.toList ≠ List.replicate Span.maxOffset '\n') {before after : List Char}
    (hsource : source.toList = before ++ after) :
    ((Place.origin.after before).line : Nat) = 1 + before.count '\n' := by
  have hmax : byteCount source.toList ≤ Span.maxOffset := by
    rw [byteCount_toList]
    exact Nat.le_sub_one_of_lt hsize
  have hcount := count_le_byteCount '\n' source.toList
  have hbefore : before.count '\n' ≤ source.toList.count '\n' := by
    rw [hsource, List.count_append]
    exact Nat.le_add_right _ _
  rw [Place.origin_after]
  refine LineNumber.first.val_below_of_lt _ ?_
  show 1 + before.count '\n' < UInt32.size
  rcases Nat.lt_or_ge (source.toList.count '\n') Span.maxOffset with hroom | hfull
  · unfold Span.maxOffset at hroom
    omega
  · have hnewlines := eq_replicate_of_byteCount_le_count (Nat.le_trans hmax hfull)
    have hall : source.toList.count '\n' = source.toList.length := by
      rw [hnewlines, List.count_replicate_self, List.length_replicate]
    have hlength : source.toList.length = Span.maxOffset := by omega
    rw [hlength] at hnewlines
    exact absurd hnewlines hother

end Lox
