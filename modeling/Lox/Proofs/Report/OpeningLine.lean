/-
`Lox.Proofs.Report.OpeningLine` -- the line that a diagnostic names.

A span is kept with the line on which it was opened, and nothing that stands behind that
place should make a difference: a string may go on over several lines, and so may the gaps
between tokens. For the tokens of a text this is so, the end marker included, and therefore
for every complaint about them; and it is so for characters that begin nothing. What is left
is the string that is never closed. It is noticed at the end of the text, and reported with
the line of that place, which is the line of its quote only if no line ends behind that.
-/
import Lox.Proofs.Report.Place

set_option autoImplicit false

namespace Lox

variable {source : String} {span : Span} {before after : List Char}

/-! ## Places in texts within reach -/

/-- A place in the text is within reach if the whole text is. -/
theorem min_byteCount (hsize : source.utf8ByteSize < UInt32.size)
    (hsource : source.toList = before ++ after) :
    min (byteCount before) Span.maxOffset = byteCount before := by
  have hall : byteCount before + byteCount after = source.utf8ByteSize := by
    rw [← byteCount_append, ← hsource, byteCount_toList]
  have hmax : source.utf8ByteSize ≤ Span.maxOffset := Nat.le_sub_one_of_lt hsize
  exact Nat.min_eq_left (by omega)

/-- The span begins where it says if the line feeds before it lead to its line. -/
theorem Span.beginsIn_iff (hsource : source.toList = before ++ after)
    (hstart : span.start = byteCount before) :
    span.BeginsIn source ↔ span.line = 1 + before.count '\n' := by
  constructor
  · rintro ⟨before', after', hsource', hstart', hline⟩
    -- the characters before an offset are the same whoever counts them
    have hsame : before' = before :=
      eq_of_byteCount_eq (hsource'.symm.trans hsource) (hstart'.trans hstart)
    rw [hline, hsame]
  · intro hline
    exact ⟨before, after, hsource, hstart.symm, hline⟩

/-- A text in which the count of lines does not come round. -/
structure CountsLines (source : String) : Prop where
  size : source.utf8ByteSize < UInt32.size
  other : source.toList ≠ List.replicate Span.maxOffset '\n'

/-- A span that is opened behind some characters, on the line that they lead to, begins
where it says. -/
theorem Span.beginsIn_ofOffsets (stop : Nat) (h : CountsLines source)
    (hsource : source.toList = before ++ after) :
    (ofOffsets (Place.origin.after before).offset stop
      (Place.origin.after before).line).BeginsIn source := by
  have hstart : (ofOffsets (Place.origin.after before).offset stop
      (Place.origin.after before).line).start = byteCount before := by
    rw [Place.origin_after]
    exact min_byteCount h.size hsource
  rw [beginsIn_iff hsource hstart, ofOffsets_line]
  exact line_origin_after_of_size h.size h.other hsource

/-! ## What begins where it says -/

/-- Newlines are gaps, each by itself. -/
theorem pieces_newlines (count : Nat) :
    pieces (List.replicate count '\n') = List.replicate count (.gap ['\n']) := by
  induction count with
  | zero => rw [List.replicate_zero, pieces, List.replicate_zero]
  | succ count ih =>
    rw [List.replicate_succ, pieces, List.replicate_succ]
    exact congrArg _ ih

/-- Nothing is collected from a text of line feeds. -/
theorem Piece.collect_newlines {α : Type} {f : Place → Piece → Option α} {p : Place}
    (hgap : ∀ p text, f p (.gap text) = none) (count : Nat) :
    collect f p (List.replicate count (.gap ['\n'])) = [] := by
  induction count generalizing p with
  | zero => rfl
  | succ count ih =>
    rw [List.replicate_succ, collect, hgap, Option.toList_none, List.nil_append, ih]

/-- Nothing is wrong with a text that consists of newlines. -/
theorem Program.diagnostics_of_newlines {count : Nat}
    (h : source.toList = List.replicate count '\n') : (Program.ofSource source).diagnostics = [] := by
  have hscan : scan source = ⟨[Token.endOf source.toList], []⟩ := by
    rw [scan, h, pieces_newlines, Piece.collect_newlines fun _ _ => rfl,
      Piece.collect_newlines fun _ _ => rfl]
    rfl
  rw [Program.ofSource, hscan]
  rfl

/-- Every token of a text begins where it says, and so does the end marker. -/
theorem Token.beginsIn_of_size {t : Token} (hsize : CountsLines source)
    (h : t ∈ (scan source).tokens) : t.span.BeginsIn source := by
  rcases List.mem_append.mp h with hmem | hmem
  · obtain ⟨before, piece, after, hsource, -, hfound⟩ := Piece.fits_of_collect hmem
    cases piece with
    | token kind text =>
      cases hfound
      exact Span.beginsIn_ofOffsets _ hsize hsource
    | _ => cases hfound
  · rw [List.mem_singleton.mp hmem]
    exact Span.beginsIn_ofOffsets _ hsize (List.append_nil _).symm

/-- A fault of a text begins where it says, unless it is a string that is not closed: such a
string is what is left of the text, and its line is the last one. -/
theorem Diagnostic.line_of_mem_scan {d : Diagnostic} (hsize : CountsLines source)
    (h : d ∈ (scan source).diagnostics) :
    d.code = some .unexpectedCharacter ∧ d.span.BeginsIn source ∨
      d.code = some .unterminatedString ∧
        ∃ before body, source.toList = before ++ '"' :: body ∧ '"' ∉ body ∧
          d.span.start = byteCount before ∧ d.span.line = 1 + source.toList.count '\n' := by
  obtain ⟨before, piece, after, hsource, hfits, hfound⟩ := Piece.fits_of_collect h
  cases piece with
  | stray c =>
    cases hfound
    exact .inl ⟨rfl, Span.beginsIn_ofOffsets _ hsize hsource⟩
  | unclosed text =>
    cases hfound
    -- nothing stands behind a string that is not closed
    obtain ⟨⟨body, rfl, hquote⟩, rfl⟩ := hfits
    rw [Piece.chars, List.append_nil] at hsource
    have hstart : min (Place.origin.after before).offset Span.maxOffset = byteCount before := by
      rw [Place.origin_after]
      exact min_byteCount hsize.size hsource
    have hline : ((Span.ofOffsets (Place.origin.after before).offset
        ((Place.origin.after before).after ('"' :: body)).offset
        ((Place.origin.after before).after ('"' :: body)).line).line : Nat)
        = 1 + source.toList.count '\n' := by
      rw [Span.ofOffsets_line, ← Place.after_append, ← hsource]
      exact line_origin_after_of_size hsize.size hsize.other (List.append_nil _).symm
    exact .inr ⟨rfl, before, body, hsource, hquote, hstart, hline⟩
  | _ => cases hfound

/-- The readers of tokens have no complaint with the code of a string that is not closed. -/
theorem Grammar.Complaint.code_ne_unterminated (k : Complaint) :
    k.diagnostic.code ≠ some .unterminatedString := by
  obtain ⟨cause, token⟩ := k
  show some cause.code ≠ _
  cases cause with
  | missing slot => rcases Cause.code_missing slot with h | h <;> rw [h] <;> decide
  | _ => decide

/-- **The line of a diagnostic.** Whatever is wrong with a text of less than 2³² bytes, each
diagnostic of its reading names the line on which its span begins, and the only exception is
the string that is not closed: that one names the last line of the text. So it names the
wrong line if and only if a line ends behind its quote. -/
theorem Program.diagnostics_line (hsize : source.utf8ByteSize < UInt32.size) :
    (∀ d ∈ (Program.ofSource source).diagnostics, d.code ≠ some .unterminatedString →
      d.span.BeginsIn source) ∧
    ∀ d ∈ (Program.ofSource source).diagnostics, d.code = some .unterminatedString →
      ∃ before body, source.toList = before ++ '"' :: body ∧ '"' ∉ body ∧
        d.span.start = byteCount before ∧ d.span.line = 1 + source.toList.count '\n' ∧
        (d.span.BeginsIn source ↔ '\n' ∉ body) := by
  by_cases hother : source.toList = List.replicate Span.maxOffset '\n'
  · rw [Program.diagnostics_of_newlines hother]
    exact ⟨fun d hmem => absurd hmem List.not_mem_nil, fun d hmem => absurd hmem List.not_mem_nil⟩
  replace hsize : CountsLines source := ⟨hsize, hother⟩
  constructor
  · intro d hmem hcode
    rcases List.mem_append.mp hmem with hscan | hread
    · rcases Diagnostic.line_of_mem_scan hsize hscan with ⟨-, hbegins⟩ | ⟨hunclosed, -⟩
      · exact hbegins
      · exact absurd hunclosed hcode
    · obtain ⟨k, hk, rfl⟩ := List.mem_map.mp hread
      exact Token.beginsIn_of_size hsize (Grammar.Complaint.token_mem hk)
  · intro d hmem hcode
    rcases List.mem_append.mp hmem with hscan | hread
    · rcases Diagnostic.line_of_mem_scan hsize hscan with
        ⟨hstray, -⟩ | ⟨-, before, body, hsource, hquote, hstart, hline⟩
      · cases hcode.symm.trans hstray
      · refine ⟨before, body, hsource, hquote, hstart, hline, ?_⟩
        have hcount : source.toList.count '\n' = before.count '\n' + body.count '\n' := by
          rw [hsource, List.count_append, List.count_cons_of_ne (by decide)]
        rw [Span.beginsIn_iff hsource hstart, hline, ← List.count_eq_zero]
        omega
    · obtain ⟨k, hk, rfl⟩ := List.mem_map.mp hread
      exact absurd hcode k.code_ne_unterminated

/-- A string over two lines, a character that begins nothing, a mistake behind a remark, and
a string that is not closed on the fourth of five lines. -/
theorem Program.diagnostics_line_five_lines :
    let source := "print \"a\nb\" @;\n// on\nvar 1; \"c\nd"
    source.utf8ByteSize < UInt32.size ∧
      (Program.ofSource source).diagnostics.map (fun d => (d.code, d.span.start, d.span.line))
        = [(some .unexpectedCharacter, 12, 2), (some .unterminatedString, 28, 5),
          (some .unexpectedToken, 25, 4)] ∧
      ∀ d ∈ (Program.ofSource source).diagnostics, d.code ≠ some .unterminatedString →
        d.span.BeginsIn source := by
  intro source
  have hsize : source.utf8ByteSize < UInt32.size := by decide
  exact ⟨hsize, by decide +kernel, (Program.diagnostics_line hsize).1⟩

/-- The quote stands on the first of two lines, and the string that begins there is reported
on the second. -/
theorem Program.unclosed_string_on_last_line :
    let source := "\"a\nb"
    ∃ d ∈ (Program.ofSource source).diagnostics, d.span.start = 0 ∧ d.span.line = 2 ∧
      ¬ d.span.BeginsIn source := by
  intro source
  refine ⟨ScanFault.unterminatedString.diagnostic ⟨0, 4, 2⟩, by decide +kernel, rfl, rfl, ?_⟩
  have hbegins : (⟨0, 4, 2⟩ : Span).BeginsIn source ↔
      ((2 : LineNumber) : Nat) = 1 + ([] : List Char).count '\n' :=
    Span.beginsIn_iff (List.nil_append _).symm rfl
  exact fun h => absurd (hbegins.mp h) (by decide)

end Lox
