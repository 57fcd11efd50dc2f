/-
`Lox.Proofs.Report.Place` -- the two ways in which a place is named.

A message in one line names the line that is kept in a span. A report is drawn from a
sketch, and what draws it finds the line itself, from the offset at which the span begins.
Both mean the same line as long as only line feeds end lines, and as long as an offset is
the same number to both of them: spans count bytes, and a report takes the number for one
of characters. So the two agree if and only if the characters before the span take one byte
each (`report_names_place`). On others the report names another place
(`report_names_other_place`), or none.
-/
import Lox.Command.Perform
import Lox.Proofs.Command.Source
import Lox.Proofs.Equipment.Drawing

set_option autoImplicit false

namespace Lox

/-! ## Where spans begin -/

/-- The span begins behind some characters of the text, and its line is the one that the line
feeds among them lead to. -/
def Span.BeginsIn (source : String) (span : Span) : Prop :=
  ∃ before after, source.toList = before ++ after ∧ byteCount before = span.start ∧
    span.line = 1 + before.count '\n'

/-- What is collected is found at the place behind the pieces before it. -/
theorem Piece.mem_collect {α : Type} {f : Place → Piece → Option α} {p : Place} {a : α}
    {found : List Piece} (h : a ∈ collect f p found) :
    ∃ before piece after, found = before ++ piece :: after ∧
      f (p.after (before.flatMap chars)) piece = some a := by
  induction found generalizing p with
  | nil => cases h
  | cons first rest ih =>
    rcases List.mem_append.mp h with hfirst | hrest
    · exact ⟨[], first, rest, rfl, Option.mem_toList.mp hfirst⟩
    · obtain ⟨before, piece, after, rfl, hpiece⟩ := ih hrest
      refine ⟨first :: before, piece, after, rfl, ?_⟩
      rw [List.flatMap_cons, Place.after_append]
      exact hpiece

/-- A span that is not empty begins where it was counted from. -/
theorem Span.beginsIn_of_collect {α : Type} {f : Place → Piece → Option α} {source : String} {a : α}
    {span : Span} (h : a ∈ Piece.collect f .origin (pieces source.toList))
    (hspan : ∀ p piece, f p piece = some a → span.start = min p.offset maxOffset ∧
      span.stop ≤ maxOffset ∧ span.line = p.line)
    (hempty : span.start < span.stop) : span.BeginsIn source := by
  obtain ⟨before, piece, after, hpieces, hfound⟩ := Piece.mem_collect h
  obtain ⟨hstart, hstop, hline⟩ := hspan _ _ hfound
  have hoffset : (Place.origin.after (before.flatMap Piece.chars)).offset
      = byteCount (before.flatMap Piece.chars) := by rw [Place.origin_after]
  -- an offset that was out of reach would leave the span empty
  have hreach : byteCount (before.flatMap Piece.chars) < maxOffset := by
    rw [hoffset] at hstart
    omega
  refine ⟨before.flatMap Piece.chars, (piece :: after).flatMap Piece.chars, ?_, ?_, ?_⟩
  · rw [← List.flatMap_append, ← hpieces, flatMap_chars_pieces]
  · rw [hstart, hoffset, Nat.min_eq_left (Nat.le_of_lt hreach)]
  · rw [hline, Place.line_origin_after hreach]

/-- A token of a text that is not empty begins at a character of the text. -/
theorem Token.beginsIn {source : String} {t : Token} (h : t ∈ (scan source).tokens)
    (hempty : t.span.start < t.span.stop) : t.span.BeginsIn source := by
  rcases List.mem_append.mp h with hmem | hmem
  · refine Span.beginsIn_of_collect hmem (fun p piece hfound => ?_) hempty
    cases piece with
    | token kind text =>
      cases hfound
      exact ⟨rfl, Nat.min_le_right _ _, Span.ofOffsets_line _ _ _⟩
    | _ => cases hfound
  · rw [List.mem_singleton.mp hmem] at hempty
    exact absurd hempty (Nat.lt_irrefl _)

/-- Characters that take equally many bytes from the beginning of a text are the same. -/
theorem eq_of_byteCount_eq {before before' after after' : List Char}
    (h : before ++ after = before' ++ after') (hbytes : byteCount before = byteCount before') :
    before = before' := by
  have hnil : ∀ {cs : List Char}, byteCount cs = 0 → cs = [] := by
    intro cs hcs
    cases cs with
    | nil => rfl
    | cons c cs =>
      rw [← List.singleton_append, byteCount_append, byteCount_singleton] at hcs
      have hpositive := c.utf8Size_pos
      omega
  rcases List.append_eq_append_iff.mp h with ⟨more, rfl, -⟩ | ⟨more, rfl, -⟩
  · rw [byteCount_append] at hbytes
    rw [hnil (by omega : byteCount more = 0), List.append_nil]
  · rw [byteCount_append] at hbytes
    rw [hnil (by omega : byteCount more = 0), List.append_nil]

/-- Each character takes one byte. -/
def OneByteEach (cs : List Char) : Prop :=
  ∀ c ∈ cs, c.utf8Size = 1

instance (cs : List Char) : Decidable (OneByteEach cs) :=
  List.decidableBAll (fun c : Char => c.utf8Size = 1) cs

/-- There are at least as many bytes as characters. -/
theorem length_le_byteCount (cs : List Char) : cs.length ≤ byteCount cs := by
  induction cs with
  | nil => exact Nat.le_refl _
  | cons c cs ih =>
    rw [byteCount_cons, List.length_cons]
    have hpositive := c.utf8Size_pos
    omega

/-- There are just as many if each character takes one byte, and only then. -/
theorem byteCount_eq_length_iff {cs : List Char} :
    byteCount cs = cs.length ↔ OneByteEach cs := by
  unfold OneByteEach
  induction cs with
  | nil => exact ⟨fun _ _ hc => absurd hc List.not_mem_nil, fun _ => rfl⟩
  | cons c cs ih =>
    rw [List.forall_mem_cons, ← ih, byteCount_cons, List.length_cons]
    have hpositive := c.utf8Size_pos
    have hmore := length_le_byteCount cs
    omega

/-- A number of characters that is not too small and not too large is that of the first
characters and some more of the text. -/
theorem exists_more_of_length {before rest : List Char} {n : Nat} (hn : before.length ≤ n)
    (hroom : n ≤ (before ++ rest).length) :
    ∃ more later, before ++ rest = (before ++ more) ++ later ∧ n = (before ++ more).length := by
  rw [List.length_append] at hroom
  refine ⟨rest.take (n - before.length), rest.drop (n - before.length), ?_, ?_⟩
  · rw [List.append_assoc, List.take_append_drop]
  · rw [List.length_append, List.length_take]
    omega

open Report (lineHead) in
/-- A place further on has another line or another column. -/
theorem eq_nil_of_same_place {before more : List Char}
    (hline : 1 + (before ++ more).count '\n' = 1 + before.count '\n')
    (hcolumn : (lineHead (before ++ more)).length + 1 = (lineHead before).length + 1) :
    more = [] := by
  rw [List.count_append] at hline
  have hsame : '\n' ∉ more := List.count_eq_zero.mp (by omega)
  have hhead : lineHead (before ++ more) = lineHead before ++ more := by
    unfold lineHead List.rtakeWhile
    rw [List.reverse_append, List.takeWhile_append_of_pos, List.reverse_append,
      List.reverse_reverse]
    intro c hc
    rw [bne_iff_ne]
    rintro rfl
    exact hsame (List.mem_reverse.mp hc)
  rw [hhead, List.length_append] at hcolumn
  exact List.length_eq_zero_iff.mp (by omega)

/-! ## Remarks -/

/-- What is suggested for a kind of mistake takes one line. -/
theorem Code.newline_notMem_suggestion {code : Code} {text : String}
    (h : code.suggestion? = some text) : '\n' ∉ text.toList := by
  cases code <;> cases h <;> decide

/-- So does what is said of the mistake as such. -/
theorem Code.newline_notMem_description (code : Code) : '\n' ∉ code.description.toList := by
  cases code <;> decide

/-- A number is written on one line. -/
theorem newline_notMem_toString (n : Nat) : '\n' ∉ (toString n).toList := by
  rw [Nat.toString_eq_repr, Nat.toList_repr]
  intro h
  have hdigit := Nat.isDigit_of_mem_toDigits (by decide) (by decide) h
  cases hdigit

/-- The explanations of a failure take one line each. -/
theorem Failure.newline_notMem_notes {f : Failure} {note : String} (h : note ∈ f.notes) :
    '\n' ∉ note.toList := by
  rcases List.mem_append.mp h with hcode | harity
  · obtain ⟨code, -, rfl⟩ := Option.map_eq_some_iff.mp (Option.mem_toList.mp hcode)
    exact code.newline_notMem_description
  · cases f with
    | arity paren expected got =>
      rw [List.mem_singleton.mp harity]
      simp only [String.toList_append, List.mem_append, not_or]
      exact ⟨⟨⟨by decide, newline_notMem_toString expected⟩, by decide⟩, newline_notMem_toString got⟩
    | _ => cases harity

/-! ## What is reported -/

/-- A complaint is about a token of the text. -/
theorem Grammar.Complaint.token_mem {source : String} {k : Complaint}
    (h : k ∈ (read (scan source).tokens).complaints) : k.token ∈ (scan source).tokens := by
  have hself : List.Forall₂ (fun t t' => t = t' ∧ t ∈ (scan source).tokens) (scan source).tokens
      (scan source).tokens := List.forall₂_same.mpr fun t ht => ⟨rfl, ht⟩
  have hword : ∀ t t' : Token, t = t' ∧ t ∈ (scan source).tokens → t.SameWord t' := by
    rintro t _ ⟨rfl, -⟩
    exact ⟨rfl, rfl, rfl⟩
  have halike := (read_alike hword hself
    (endMarker_matched hword hself (find?_eof_scan source))).2
  exact (List.forall₂_same.mp halike k h).token.2

namespace Command

variable {settings : Settings} {source : Source} {d : Diagnostic} {text : String}

/-- What the commands that take a source report of it, and what they write for that: complaints
and characters that begin nothing, or if nothing is wrong with it, the failure of its run. -/
inductive Reported (settings : Settings) (source : Source) : Diagnostic → String → Prop
  | reading {d : Diagnostic} : d ∈ (Program.ofSource source.text).diagnostics →
    d.stage = .parsing ∨ d.code = some .unexpectedCharacter →
    Reported settings source d (diagnosticText settings source d)
  | running {fuel : Nat} {clock : Float} {echo : Bool} {failure : Failure} :
    (Program.ofSource source.text).diagnostics = [] →
    (Desk.start clock).verdict fuel (requestFor echo (Program.ofSource source.text).stmts)
      = .failed failure →
    Reported settings source failure.diagnostic (failureText settings source failure)

/-- What is reported has one label, at its span, which knows its line. -/
theorem Reported.beginsIn (h : Reported settings source d text)
    (hempty : d.span.start < d.span.stop) :
    (∃ message, d.labels = [⟨d.span, message⟩]) ∧ d.span.BeginsIn source.text := by
  cases h with
  | reading hmem hsort =>
    rcases List.mem_append.mp hmem with hscan | hread
    · have hlabels : ∃ message, d.labels = [⟨d.span, message⟩] := by
        obtain ⟨_, piece, _, -, hpiece⟩ := Piece.mem_collect hscan
        cases piece with
        | stray c | unclosed text =>
          cases hpiece
          exact ⟨_, rfl⟩
        | _ => cases hpiece
      refine ⟨hlabels, Span.beginsIn_of_collect hscan (fun p piece hpiece => ?_) hempty⟩
      cases piece with
      | stray c =>
        cases hpiece
        exact ⟨rfl, Nat.min_le_right _ _, Span.ofOffsets_line _ _ _⟩
      | unclosed text =>
        cases hpiece
        rcases hsort with hsort | hsort <;> cases hsort
      | _ => cases hpiece
    · obtain ⟨k, hk, rfl⟩ := List.mem_map.mp hread
      exact ⟨⟨k.label, rfl⟩, Token.beginsIn (Grammar.Complaint.token_mem hk) hempty⟩
  | @running fuel clock echo failure _ hfailed =>
    cases htoken : failure.token? with
    | none =>
      have hspan : failure.diagnostic.span = Span.nowhere := by
        rw [Failure.diagnostic, htoken]
        rfl
      rw [hspan] at hempty
      cases hempty
    | some t =>
      have hspan : failure.diagnostic.span = t.span := by
        rw [Failure.diagnostic, htoken]
        rfl
      have hlabels : failure.diagnostic.labels = [⟨t.span, "error occurred here"⟩] := by
        rw [Failure.diagnostic, htoken]
        rfl
      rw [hspan] at hempty ⊢
      refine ⟨⟨_, hlabels⟩, ?_⟩
      -- the token is one of the source, as nothing else is run
      have hbegin : (Machine.boot clock .unlimited).begin.OfTexts [source.text] :=
        Machine.begin_ofTexts clock .unlimited
      obtain ⟨failure', halike⟩ := hbegin.failed_alike (requestFor_ordinary echo source.text _)
        (requestFor_readFrom (List.mem_singleton_self source.text) echo) hfailed
      obtain ⟨u, ⟨text, htext, hu⟩, -, huspan⟩ :=
        Machine.drawn_of_failure_alike halike htoken
      rw [List.mem_singleton.mp htext] at hu
      rw [huspan] at hempty ⊢
      exact Token.beginsIn hu hempty

/-- Its sketch has one mark, from the beginning of the span to its end. The span was counted
from the only place with as many bytes before it, so it knows the line of that place. -/
theorem Reported.marks_and_line (h : Reported settings source d text)
    (hempty : d.span.start < d.span.stop) {before rest : List Char}
    (hsource : source.text.toList = before ++ rest) (hstart : d.span.start = byteCount before) :
    (∃ message, (sketch settings source d).marks = [⟨d.span.start, d.span.stop, message⟩]) ∧
      d.span.line = 1 + before.count '\n' := by
  obtain ⟨⟨message, hlabels⟩, found, more, hfound, hbegins, hnumber⟩ := h.beginsIn hempty
  have hsame : found = before := by
    rw [hfound] at hsource
    exact eq_of_byteCount_eq hsource (hbegins.trans hstart)
  refine ⟨⟨message, ?_⟩, hsame ▸ hnumber⟩
  show d.labels.map _ = _
  rw [hlabels]
  rfl

/-- What is reported of a piece of the text is drawn, if the drawing can be had. -/
theorem Reported.drawn {report : String} (h : Reported settings source d text)
    (hempty : d.span.start < d.span.stop) (hloud : settings.quiet = false)
    (hdraw : settings.draw (sketch settings source d) = some report) : text = report := by
  cases h with
  | reading _ _ =>
    rw [diagnosticText, hloud, drawnText, hdraw]
    rfl
  | @running fuel clock echo failure _ _ =>
    have htoken : failure.token?.isNone = false := by
      cases htoken : failure.token? with
      | none =>
        rw [Failure.diagnostic, htoken] at hempty
        cases hempty
      | some t => rfl
    rw [failureText, hloud, htoken, drawnText, hdraw]
    rfl

/-- The notes and the help of what is reported take one line each. -/
theorem Reported.newline_notMem_hints (h : Reported settings source d text) :
    (∀ note ∈ d.notes, '\n' ∉ note.toList) ∧ ∀ help, d.help = some help → '\n' ∉ help.toList := by
  cases h with
  | reading hmem _ =>
    -- whatever is found while reading has a code and nothing besides
    obtain ⟨code, hnotes, hhelp⟩ : ∃ code : Code, d.notes = [] ∧ d.help = code.suggestion? := by
      rcases List.mem_append.mp hmem with hscan | hread
      · obtain ⟨_, piece, _, -, hpiece⟩ := Piece.mem_collect hscan
        cases piece with
        | stray c =>
          cases hpiece
          exact ⟨.unexpectedCharacter, rfl, rfl⟩
        | unclosed text =>
          cases hpiece
          exact ⟨.unterminatedString, rfl, rfl⟩
        | _ => cases hpiece
      · obtain ⟨k, -, rfl⟩ := List.mem_map.mp hread
        exact ⟨k.cause.code, rfl, rfl⟩
    rw [hnotes, hhelp]
    exact ⟨fun _ hnote => absurd hnote List.not_mem_nil,
      fun _ => Code.newline_notMem_suggestion⟩
  | @running fuel clock echo failure _ _ =>
    refine ⟨fun note hnote => Failure.newline_notMem_notes hnote, fun help hhelp => ?_⟩
    obtain ⟨code, -, hsuggested⟩ := Option.bind_eq_some_iff.mp hhelp
    exact Code.newline_notMem_suggestion hsuggested

/-- So do the remarks of its sketch. -/
theorem Reported.newline_notMem_remarks (h : Reported settings source d text) :
    ∀ remark ∈ (sketch settings source d).remarks, '\n' ∉ remark.toList := by
  obtain ⟨hnotes, hhelp⟩ := h.newline_notMem_hints
  intro remark hremark
  rcases List.mem_append.mp hremark with hmem | hmem
  · obtain ⟨help, hfound, rfl⟩ := Option.map_eq_some_iff.mp (Option.mem_toList.mp hmem)
    rw [String.toList_append, List.mem_append]
    refine not_or_intro (by decide) (hhelp help ?_)
    cases hhints : settings.hints with
    | true => rwa [sketch, Report.Sketch.ofDiagnostic, hhints] at hfound
    | false =>
      rw [sketch, Report.Sketch.ofDiagnostic, hhints] at hfound
      cases hfound
  · obtain ⟨note, hfound, rfl⟩ := Option.map_eq_some_iff.mp (Option.mem_toList.mp hmem)
    rw [String.toList_append, List.mem_append]
    refine not_or_intro (by decide) (hnotes note ?_)
    cases hhints : settings.hints with
    | true =>
      rw [sketch, Report.Sketch.ofDiagnostic, hhints] at hfound
      exact List.mem_of_getLast? hfound
    | false =>
      rw [sketch, Report.Sketch.ofDiagnostic, hhints] at hfound
      cases hfound

open Report (Coloured DrawsReports Names OnlyLineFeeds Shows lineHead lineTail unlines)

/-- **The two ways to name a place, and when they agree.** Let line feeds be the only characters
that end lines, and let something be reported of a piece of one line. If the characters up to
the end of the piece take one byte each, the report names the line that the message in one
line names, and the column behind the characters that stand before the piece on its line; it
shows that line, and under it the help and the last note. As long as the span ends within the
length of the text, some place is named, and it is the right one if and only if the characters
before the piece take one byte each. And if the span begins beyond that length, nothing but
the header is drawn. -/
theorem report_names_place {before piece after : List Char} (hdraw : DrawsReports settings.draw)
    (h : Reported settings source d text) (hfeeds : OnlyLineFeeds source.text.toList)
    (hsource : source.text.toList = before ++ (piece ++ after)) (hpiece : piece ≠ [])
    (hline : '\n' ∉ piece) (hstart : d.span.start = byteCount before)
    (hstop : d.span.stop = byteCount (before ++ piece)) (hloud : settings.quiet = false) :
    let s := sketch settings source d
    (OneByteEach (before ++ piece) → ∃ drawn, Coloured (unlines drawn) text.toList ∧
      Shows s d.span.line ((lineHead before).length + 1) (lineHead before ++ piece ++ lineTail after)
        drawn) ∧
    (d.span.stop ≤ source.text.length → ∃ line column drawn, Coloured (unlines drawn) text.toList ∧
      Names s line column drawn ∧
      (line = d.span.line ∧ column = (lineHead before).length + 1 ↔ OneByteEach before)) ∧
    (source.text.length < d.span.start → Coloured (unlines [s.header]) text.toList) := by
  intro s
  have hempty : d.span.start < d.span.stop := by
    rw [hstart, hstop, byteCount_append]
    have hpositive := byteCount_pos hpiece
    omega
  obtain ⟨⟨message, hmarks⟩, hnumber⟩ := h.marks_and_line hempty hsource hstart
  refine ⟨fun hbytes => ?_, fun hinside => ?_, fun houtside => ?_⟩
  · have hbefore : OneByteEach before := fun c hc => hbytes c (List.mem_append_left _ hc)
    obtain ⟨drawn, report, hreport, hcoloured, hshows⟩ := hdraw.piece hmarks rfl hsource hfeeds
      hpiece hline (hstart.trans (byteCount_eq_length_iff.mpr hbefore))
      (hstop.trans ((byteCount_eq_length_iff.mpr hbytes).trans List.length_append))
      h.newline_notMem_remarks
    rw [h.drawn hempty hloud hreport, hnumber]
    exact ⟨drawn, hcoloured, hshows⟩
  · -- the report counts characters from where the bytes were counted
    have hroom : d.span.start ≤ (before ++ (piece ++ after)).length := by
      rw [← hsource, String.length_toList]
      omega
    obtain ⟨more, later, htext, hlength⟩ :=
      exists_more_of_length (hstart ▸ length_le_byteCount before) hroom
    obtain ⟨drawn, report, hreport, hcoloured, hnames⟩ :=
      hdraw.place hmarks rfl (hsource.trans htext) hfeeds hlength hempty hinside
    rw [h.drawn hempty hloud hreport, hnumber]
    refine ⟨_, _, drawn, hcoloured, hnames, fun ⟨hl, hc⟩ => ?_, fun hbytes => ?_⟩
    · rw [eq_nil_of_same_place hl hc, List.append_nil] at hlength
      exact byteCount_eq_length_iff.mp (hstart.symm.trans hlength)
    · have hmore : more = [] := by
        rw [hstart, byteCount_eq_length_iff.mpr hbytes, List.length_append] at hlength
        exact List.length_eq_zero_iff.mp (by omega)
      rw [hmore, List.append_nil]
      exact ⟨rfl, rfl⟩
  · obtain ⟨report, hreport, hcoloured⟩ :=
      hdraw.outside hmarks rfl (Nat.le_of_lt hempty) houtside
    rw [h.drawn hempty hloud hreport]
    exact hcoloured

/-- A mistake on the second line, which is indented. -/
theorem report_names_place_indented :
    let source : Source := ⟨"a.lox", "print 1;\n\tprint 2 b;\n"⟩
    let d := (Grammar.Complaint.mk (.missing .printEnd) (.plain .identifier "b" ⟨18, 19, 2⟩)).diagnostic
    let settings := Arguments.nothing.settings Tools.standard.draw false
    ∃ text drawn, DrawsReports settings.draw ∧ Reported settings source d text ∧
      d.span.start = 18 ∧ d.span.line = 2 ∧ text.toList = unlines drawn ∧
      drawn[1]? = some "   ╭─[a.lox:2:10]" ∧ drawn[3]? = some " 2 │     print 2 b;" ∧
      ∃ drawn, Coloured (unlines drawn) text.toList ∧
        Shows (sketch settings source d) d.span.line 10 "\tprint 2 b;".toList drawn := by
  intro source d settings
  have hdraw : DrawsReports settings.draw := Equipment.draw_reports
  have hreported : Reported settings source d _ := .reading (by decide +kernel) (.inl rfl)
  have hfeeds : OnlyLineFeeds source.text.toList := by decide +kernel
  obtain ⟨hshows, -, -⟩ := @report_names_place settings source d _ "print 1;\n\tprint 2 ".toList
    "b".toList ";\n".toList hdraw hreported hfeeds (by decide) (by decide) (by decide) (by decide)
    (by decide) rfl
  exact ⟨_, Equipment.reportLines (sketch settings source d), hdraw, hreported, rfl, rfl,
    Equipment.toList_draw _, by decide +kernel, by decide +kernel, hshows (by decide)⟩

/-- A string with a character of two bytes stands before the mistake, and the report names the
next column. -/
theorem report_names_other_place :
    let source : Source := ⟨"a.lox", "print \"é\" x;"⟩
    let before := "print \"é\" ".toList
    let d := (Grammar.Complaint.mk (.missing .printEnd) (.plain .identifier "x" ⟨11, 12, 1⟩)).diagnostic
    let settings := Arguments.nothing.settings Tools.standard.draw false
    ∃ text drawn, DrawsReports settings.draw ∧ Reported settings source d text ∧
      OnlyLineFeeds source.text.toList ∧ source.text.toList = before ++ (['x'] ++ [';']) ∧
      d.span.start = byteCount before ∧ d.span.stop = byteCount (before ++ ['x']) ∧
      text.toList = unlines drawn ∧ drawn[1]? = some "   ╭─[a.lox:1:12]" ∧
      (lineHead before).length + 1 = 11 := by
  intro source before d settings
  exact ⟨_, Equipment.reportLines (sketch settings source d), Equipment.draw_reports,
    .reading (by decide +kernel) (.inl rfl), by decide +kernel, by decide, by decide, by decide,
    Equipment.toList_draw _, by decide +kernel, by decide⟩

end Command

end Lox
