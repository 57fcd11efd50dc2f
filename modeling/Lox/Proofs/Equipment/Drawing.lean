/-
`Lox.Proofs.Equipment.Drawing` -- reports are drawn as is assumed of them.

Where line feeds are the only characters that end lines, the line on which a place of a
text lies can be told from the text itself: it reaches from the last line feed before the
place to the next one behind it (`lineHead`, `lineTail`), and its number is one more than
the line feeds before it. So a report whose label covers a piece of a line can be written
down without going through the lines of the text (`pieceReport`), and what is assumed of a
drawing can be seen on it (`draw_reports`).

All offsets here count characters, as the report does.
-/
import Lox.Equipment.Drawing
import Lox.Proofs.Report.Artist

set_option autoImplicit false

namespace Lox.Equipment

open Report (Coloured DrawsReports Mark Names OnlyLineFeeds Shows Sketch lineHead lineTail unlines)

/-! ## The lines of a text -/

section Lines

variable {cs earlier rest line : List Char} {c : Char}

/-- A line feed ends the line that it stands on. -/
theorem linesFrom_newline :
    linesFrom line ('\n' :: rest) = (line.reverse ++ ['\n']) :: linesFrom [] rest := by
  rw [← List.reverse_cons]
  rfl

/-- Any other character goes on with the line, unless it breaks lines too. -/
theorem linesFrom_cons (h : Text.breaksLine c = false) :
    linesFrom line (c :: rest) = linesFrom (c :: line) rest := by
  rw [linesFrom, h]
  · rfl
  · rintro _ rfl -
    cases h

/-- All characters of a text are on its lines. -/
theorem flatten_linesFrom (line cs : List Char) :
    (linesFrom line cs).flatten = line.reverse ++ cs := by
  fun_induction linesFrom line cs with
  | case1 line hempty => simp_all
  | case2 line hempty => simp_all
  | case3 line rest ih => simp_all
  | case4 line c rest hne hbreaks ih => simp_all
  | case5 line c rest hne hbreaks ih => simp_all

/-- Characters that end no line are gone over. -/
theorem linesFrom_append_of_not_breaksLine (line rest : List Char)
    (h : ∀ c ∈ cs, Text.breaksLine c = false) :
    linesFrom line (cs ++ rest) = linesFrom (cs.reverse ++ line) rest := by
  induction cs generalizing line with
  | nil => rfl
  | cons c cs ih =>
    obtain ⟨hc, hcs⟩ := List.forall_mem_cons.mp h
    rw [List.cons_append, linesFrom_cons hc, ih (c :: line) hcs, List.reverse_cons, List.append_assoc]
    rfl

/-- Behind a line feed the lines begin anew, and there are as many before it as there are
line feeds. -/
theorem linesFrom_append (line rest : List Char) (h : OnlyLineFeeds earlier)
    (hend : earlier.getLast? = some '\n') :
    ∃ ls, linesFrom line (earlier ++ rest) = ls ++ linesFrom [] rest ∧
      ls.flatten = line.reverse ++ earlier ∧ ls.length = earlier.count '\n' := by
  induction earlier generalizing line with
  | nil => cases hend
  | cons c cs ih =>
    have hcs : OnlyLineFeeds cs := h.of_subset (List.subset_cons_self c cs)
    by_cases hc : c = '\n'
    · rw [hc, List.cons_append, linesFrom_newline]
      by_cases hnil : cs = []
      · exact ⟨[line.reverse ++ ['\n']], by rw [hnil]; simp⟩
      · rw [List.getLast?_cons_of_ne_nil hnil] at hend
        obtain ⟨ls, hls, hflatten, hlength⟩ := ih [] hcs hend
        refine ⟨(line.reverse ++ ['\n']) :: ls, by rw [hls, List.cons_append], ?_, ?_⟩
        · simp [hflatten]
        · rw [List.length_cons, hlength, List.count_cons_self]
    · have hnil : cs ≠ [] := by
        rintro rfl
        exact hc (Option.some.inj hend)
      rw [List.getLast?_cons_of_ne_nil hnil] at hend
      obtain ⟨ls, hls, hflatten, hlength⟩ := ih (c :: line) hcs hend
      rw [List.cons_append, linesFrom_cons (h.breaksLine_eq_false List.mem_cons_self hc)]
      refine ⟨ls, hls, ?_, ?_⟩
      · rw [hflatten, List.reverse_cons, List.append_assoc]
        rfl
      · rw [hlength, List.count_cons_of_ne hc]

/-- The line on which a place of a text lies, among the others. -/
theorem linesFrom_place {before after : List Char} (h : OnlyLineFeeds (before ++ after))
    (hafter : after ≠ []) :
    ∃ earlier current later, linesFrom [] (before ++ after) = earlier ++ current :: later ∧
      earlier.length = before.count '\n' ∧
      earlier.flatten.length + (lineHead before).length = before.length ∧
      (lineHead before).length < current.length ∧
      (current = lineHead before ++ lineTail after ∨
        current = lineHead before ++ lineTail after ++ ['\n']) := by
  obtain ⟨first, hbefore, hfirst, hhead⟩ := Report.lineHead_append before
  obtain ⟨later, hsplit, hlater, htail⟩ := Report.lineTail_append after
  generalize lineHead before = head at *
  generalize lineTail after = tail at *
  subst hbefore hsplit
  -- the lines that have ended before
  obtain ⟨earlier, hearlier, hflatten, hlength⟩ : ∃ earlier,
      linesFrom [] (first ++ (head ++ (tail ++ later)))
        = earlier ++ linesFrom [] (head ++ (tail ++ later)) ∧
      earlier.flatten = first ∧ earlier.length = first.count '\n' := by
    rcases hfirst with rfl | hlast
    · exact ⟨[], rfl, rfl, rfl⟩
    · exact linesFrom_append [] _ (h.of_subset (by simp)) hlast
  -- the line itself has no line feed, except at its end
  have hcurrent : ∀ c ∈ head ++ tail, Text.breaksLine c = false := by
    intro c hc
    refine h.breaksLine_eq_false (by simp_all; tauto) ?_
    rintro rfl
    simp_all
  have hcount : (first ++ head).count '\n' = first.count '\n' := by
    rw [List.count_append, List.count_eq_zero_of_not_mem hhead, Nat.add_zero]
  have hlines : linesFrom [] (head ++ (tail ++ later))
      = linesFrom (head ++ tail).reverse later := by
    have happend := linesFrom_append_of_not_breaksLine [] later hcurrent
    rw [List.append_nil] at happend
    rw [← happend, List.append_assoc]
  have hwidth : earlier.flatten.length + head.length = (first ++ head).length := by
    rw [hflatten, List.length_append]
  rw [List.append_assoc, hearlier, hlines, hcount]
  rcases hlater with rfl | ⟨more, rfl⟩
  · have htailLength : 0 < tail.length := by
      rw [List.append_nil] at hafter
      exact List.length_pos_iff.mpr hafter
    have hnonempty : head ++ tail ≠ [] := by
      refine List.append_ne_nil_of_right_ne_nil _ ?_
      exact List.length_pos_iff.mp htailLength
    refine ⟨earlier, _, [], ?_, hlength, hwidth, ?_, .inl rfl⟩
    · rw [linesFrom, if_neg (mt List.isEmpty_iff.mp (mt List.reverse_eq_nil_iff.mp hnonempty)),
        List.reverse_reverse]
    · rw [List.length_append]
      omega
  · refine ⟨earlier, _, linesFrom [] more, ?_, hlength, hwidth, ?_, .inr rfl⟩
    · rw [linesFrom_newline, List.reverse_reverse]
    · rw [List.length_append, List.length_append, List.length_singleton]
      omega

/-- The rest of a line goes on behind a piece of it. -/
theorem lineTail_piece {piece : List Char} (hline : '\n' ∉ piece) (after : List Char) :
    lineTail (piece ++ after) = piece ++ lineTail after := by
  unfold lineTail
  refine List.takeWhile_append_of_pos fun c hc => ?_
  rw [bne_iff_ne]
  rintro rfl
  exact hline hc

end Lines

/-! ## The line of a place -/

/-- A place lies on the line that begins at or before it and ends behind it. -/
theorem lineAt?_placed (number start : Nat) {offset : Nat} {earlier later : List (List Char)}
    {current : List Char} (hstart : start + earlier.flatten.length ≤ offset)
    (hstop : offset < start + earlier.flatten.length + current.length) :
    lineAt? (placed number start (earlier ++ current :: later)) offset
      = some ⟨number + earlier.length, start + earlier.flatten.length, current.length,
          Text.dropTrailing Text.isBlank current⟩ := by
  induction earlier generalizing number start with
  | nil =>
    have hlater : (placed (number + 1) (start + current.length) later).takeWhile
        (·.start ≤ offset) = [] := by
      cases later with
      | nil => rfl
      | cons next more =>
        refine List.takeWhile_cons_of_neg ?_
        simpa using hstop
    have hcurrent : start ≤ offset := hstart
    unfold lineAt?
    rw [List.nil_append, placed, List.takeWhile_cons_of_pos (by simpa using hcurrent), hlater]
    rfl
  | cons first earlier ih =>
    rw [List.flatten_cons, List.length_append] at hstart hstop
    have hrest := ih (number + 1) (start + first.length) (by omega) (by omega)
    unfold lineAt? at hrest ⊢
    rw [List.cons_append, placed, List.takeWhile_cons_of_pos (by simp; omega),
      List.getLast?_cons, hrest, Option.getD_some, List.length_cons, List.flatten_cons,
      List.length_append, Nat.add_assoc, Nat.add_assoc, Nat.add_comm 1]

/-- What is dropped at the end is dropped first. -/
theorem dropTrailing_concat {p : Char → Bool} {c : Char} (cs : List Char) (h : p c = true) :
    Text.dropTrailing p (cs ++ [c]) = Text.dropTrailing p cs := by
  rw [Text.dropTrailing, List.reverse_append, List.reverse_singleton, List.singleton_append,
    List.dropWhile_cons_of_pos h, Text.dropTrailing]

/-- What is known of the line on which a place of a text lies. -/
theorem lineAt?_lines {before after : List Char} (h : OnlyLineFeeds (before ++ after))
    (hafter : after ≠ []) :
    ∃ line : Line, line.number = 1 + before.count '\n' ∧
      line.start + (lineHead before).length = before.length ∧
      before.length < line.stop ∧ before.length + (lineTail after).length ≤ line.stop ∧
      line.chars = Text.dropTrailing Text.isBlank (lineHead before ++ lineTail after) ∧
      ∀ offset, before.length ≤ offset → offset < line.stop →
        lineAt? (lines (before ++ after)) offset = some line := by
  obtain ⟨earlier, current, later, hlines, hnumber, hbefore, hroom, hcurrent⟩ :=
    linesFrom_place h hafter
  have hchars : Text.dropTrailing Text.isBlank current
      = Text.dropTrailing Text.isBlank (lineHead before ++ lineTail after) := by
    rcases hcurrent with rfl | rfl
    · rfl
    · exact dropTrailing_concat _ (by decide)
  have htail : (lineHead before).length + (lineTail after).length ≤ current.length := by
    rcases hcurrent with rfl | rfl <;> simp only [List.length_append] <;> omega
  refine ⟨⟨1 + earlier.length, 0 + earlier.flatten.length, current.length,
    Text.dropTrailing Text.isBlank current⟩, by rw [hnumber], ?_, ?_, ?_, hchars, ?_⟩
  · dsimp only
    omega
  · rw [Line.stop]
    dsimp only
    omega
  · rw [Line.stop]
    dsimp only
    omega
  · intro offset hfrom hto
    rw [Line.stop] at hto
    rw [lines, hlines]
    exact lineAt?_placed 1 0 (by omega) hto

/-- Every place of a text that is not empty lies on some line. -/
theorem lineAt?_isSome {text : List Char} (h : text ≠ []) (offset : Nat) :
    ∃ line, lineAt? (lines text) offset = some line := by
  obtain ⟨first, rest, hfirst⟩ : ∃ first rest, linesFrom [] text = first :: rest := by
    cases hlines : linesFrom [] text with
    | nil => exact absurd (hlines ▸ flatten_linesFrom [] text) (by simpa using h.symm)
    | cons first rest => exact ⟨first, rest, rfl⟩
  unfold lineAt? lines
  rw [hfirst, placed, List.takeWhile_cons_of_pos (by simp), List.getLast?_cons]
  exact ⟨_, rfl⟩

/-! ## The report -/

/-- The report of a label on a piece of a line, below the headline: the place, the line with
the piece marked, and the remarks. The piece has so many characters, and so many stand
before it on its line. -/
def pieceReport (fileName : String) (line : Line) (column length : Nat) (message : String)
    (remarks : List String) : List String :=
  let width := (toString line.number).length
  let underline : Underline := ⟨column, column + length, column + length / 2⟩
  [repeated (width + 2) ' ' ++ "╭─[" ++ fileName ++ ":" ++ toString line.number ++ ":"
      ++ toString (column + 1) ++ "]",
    repeated (width + 2) ' ' ++ "│",
    numberedMargin width line ++ line.drawn,
    blankMargin width ++ markRow line underline.columns underline.mark,
    blankMargin width ++ markRow line underline.columns underline.lead ++ " " ++ message]
  ++ remarks.flatMap (fun remark => [blankMargin width, blankMargin width ++ remark])
  ++ [repeated (width + 2) '─' ++ "╯"]

/-- Under a single line there is nothing but the marks of the label. -/
theorem body_single {fileName : String} {line : Line} {label : Mark} {column length : Nat}
    {remarks : List String} (hstart : label.start = line.start + column)
    (hstop : label.stop = line.start + column + length) (hroom : label.stop ≤ line.stop) :
    body fileName ⟨line, line⟩ label remarks
      = pieceReport fileName line column length label.message remarks := by
  have hunderline : Underline.ofMark label line.start
      = ⟨column, column + length, column + length / 2⟩ := by
    rw [Underline.ofMark, hstart, hstop, Underline.mk.injEq]
    omega
  have hcolumn : label.start - line.start = column := by omega
  unfold body pieceReport drawSingle remarkIndent Excerpt.isSingle
  simp only [beq_self_eq_true, if_true, if_pos hroom, hcolumn, hunderline, String.append_empty]
  simp only [List.cons_append, List.nil_append, String.append_assoc]

/-- A label that lies in the text is drawn under the line on which it begins, and under the one
on which its last character lies. -/
theorem reportLines_inside {s : Sketch} {label : Mark} {first last : Line}
    (hlabel : s.marks = [label]) (hstart : label.start < label.stop)
    (hstop : label.stop ≤ s.text.length)
    (hfirst : lineAt? (lines s.text.toList) label.start = some first)
    (hlast : lineAt? (lines s.text.toList) (label.stop - 1) = some last) :
    reportLines s = s.header :: body s.fileName ⟨first, last⟩ label s.remarks := by
  have hinside : isOutside label s.text.length = false := by
    have hafter : ¬ label.stop - 1 > s.text.length := by omega
    rw [isOutside, Bool.or_eq_false_iff, Bool.or_eq_false_iff, beq_eq_false_iff_ne,
      decide_eq_false_iff_not, decide_eq_false hafter, Bool.and_false]
    exact ⟨⟨by omega, by omega⟩, rfl⟩
  have hsubject : subject? s = some (⟨first, last⟩, label) := by
    have hmax : max label.start (label.stop - 1) = label.stop - 1 := by omega
    unfold subject?
    rw [hlabel]
    show (if isOutside label s.text.length then none else
      Excerpt.between? s.text.toList label.start
        (max label.start (label.stop - 1)) >>= fun excerpt => some (excerpt, label)) = _
    rw [hinside, hmax]
    unfold Excerpt.between?
    dsimp only
    rw [hfirst, hlast]
    rfl
  unfold reportLines
  rw [hsubject]

/-- A label on a piece of a line is drawn under that line. -/
theorem reportLines_piece {s : Sketch} {label : Mark} {before piece after : List Char}
    (htext : s.text.toList = before ++ (piece ++ after)) (h : OnlyLineFeeds s.text.toList)
    (hpiece : piece ≠ []) (hline : '\n' ∉ piece) (hlabel : s.marks = [label])
    (hstart : label.start = before.length) (hstop : label.stop = before.length + piece.length) :
    ∃ line : Line, line.number = 1 + before.count '\n' ∧
      line.chars = Text.dropTrailing Text.isBlank (lineHead before ++ piece ++ lineTail after) ∧
      reportLines s = s.header :: pieceReport s.fileName line (lineHead before).length
        piece.length label.message s.remarks := by
  rw [htext] at h
  obtain ⟨line, hnumber, hlineStart, -, hlineStop, hchars, hat⟩ :=
    lineAt?_lines h (List.append_ne_nil_of_left_ne_nil hpiece after)
  rw [lineTail_piece hline] at hlineStop hchars
  rw [List.length_append] at hlineStop
  rw [← List.append_assoc] at hchars
  have hpositive : 0 < piece.length := List.length_pos_iff.mpr hpiece
  have hlength : s.text.length = before.length + (piece.length + after.length) := by
    rw [← String.length_toList, htext, List.length_append, List.length_append]
  have hreport : reportLines s = s.header :: body s.fileName ⟨line, line⟩ label s.remarks := by
    refine reportLines_inside hlabel (by omega) (by omega) ?_ ?_
    · rw [htext]
      exact hat _ (by omega) (by omega)
    · rw [htext]
      exact hat _ (by omega) (by omega)
  refine ⟨line, hnumber, hchars, ?_⟩
  rw [hreport]
  exact congrArg (s.header :: ·) (body_single (by omega) (by omega) (by omega))

/-! ## What the report shows -/

/-- Cutting blank space off the end leaves all other characters. -/
theorem filter_dropTrailing_isBlank (cs : List Char) :
    (Text.dropTrailing Text.isBlank cs).filter (!Text.isBlank ·)
      = cs.filter (!Text.isBlank ·) := by
  obtain ⟨blank, hblank, hcs⟩ : ∃ blank : List Char, (∀ c ∈ blank, Text.isBlank c = true) ∧
      Text.dropTrailing Text.isBlank cs ++ blank = cs := by
    refine ⟨(cs.reverse.takeWhile Text.isBlank).reverse, fun c hc => ?_, ?_⟩
    · exact List.mem_takeWhile_imp (List.mem_reverse.mp hc)
    · rw [Text.dropTrailing, ← List.reverse_append, List.takeWhile_append_dropWhile,
        List.reverse_reverse]
  have hnone : blank.filter (!Text.isBlank ·) = [] :=
    List.filter_eq_nil_iff.mpr fun c hc => by simp [hblank c hc]
  conv_rhs => rw [← hcs, List.filter_append, hnone, List.append_nil]

/-- A character is drawn as itself, unless it is blank. -/
theorem filter_drawChar (column : Nat) (c : Char) :
    (Line.drawChar column c).filter (!Text.isBlank ·) = [c].filter (!Text.isBlank ·) := by
  unfold Line.drawChar
  split
  · rename_i hblank
    rw [List.filter_cons_of_neg (by simp [hblank]), List.filter_nil, List.filter_eq_nil_iff]
    intro d hd
    rw [List.eq_of_mem_replicate hd]
    decide
  · rfl

/-- So the characters of a line that are not blank are drawn as they are. -/
theorem filter_drawn (cs : List Char) :
    (cs.mapIdx Line.drawChar).flatten.filter (!Text.isBlank ·)
      = cs.filter (!Text.isBlank ·) := by
  induction cs using List.reverseRecOn with
  | nil => rfl
  | append_singleton cs c ih =>
    rw [List.mapIdx_concat, List.flatten_concat, List.filter_append, ih, filter_drawChar,
      List.filter_append]

/-- The number of a line stands in a field that it fills. -/
theorem numberedMargin_eq (line : Line) :
    numberedMargin (toString line.number).length line
      = String.ofList (List.replicate 1 ' ') ++ toString line.number ++ " │ " := by
  unfold numberedMargin repeated
  dsimp only
  rw [Nat.sub_self]
  rfl

/-- The place that is named is the one where the label begins. -/
theorem body_names (s : Sketch) (e : Excerpt) (label : Mark) :
    Names s e.first.number (label.start - e.first.start + 1)
      (s.header :: body s.fileName e label s.remarks) where
  header := rfl
  place := by
    refine ⟨(toString e.last.number).length + 2, ?_⟩
    unfold body
    simp only [repeated, String.append_assoc, List.cons_append, List.getElem?_cons_succ,
      List.getElem?_cons_zero]

/-- The report of a piece shows what it should. -/
theorem pieceReport_shows {s : Sketch} {line : Line} {chars : List Char} (column length : Nat)
    (message : String) (hchars : line.chars = Text.dropTrailing Text.isBlank chars) :
    Shows s line.number (column + 1) chars
      (s.header :: pieceReport s.fileName line column length message s.remarks) where
  header := rfl
  place := ⟨(toString line.number).length + 2, rfl⟩
  excerpt := by
    refine ⟨1, (line.chars.mapIdx Line.drawChar).flatten, ?_, ?_⟩
    · rw [← numberedMargin_eq]
      rfl
    · rw [filter_drawn, hchars, filter_dropTrailing_isBlank]
  remarks := by
    intro remark hremark
    refine ⟨blankMargin (toString line.number).length ++ remark, ?_, ?_⟩
    · -- the two lines with marks stand before the remarks, and the lower edge behind them
      refine List.mem_append_left [_] (List.mem_append_right [_, _] ?_)
      exact List.mem_flatMap.mpr ⟨remark, hremark, List.mem_cons_of_mem _ List.mem_cons_self⟩
    · rw [String.toList_append]
      exact List.suffix_append _ _

/-- The lines of a report are its text. -/
theorem toList_draw (s : Sketch) : (draw s).toList = unlines (reportLines s) := by
  unfold draw unlines
  rw [String.toList_join, List.flatMap_map]
  simp only [String.toList_append]
  rfl

/-- Nothing is shown of a text that ends before the label. -/
theorem reportLines_outside {s : Sketch} {label : Mark} (hlabel : s.marks = [label])
    (houtside : s.text.length < label.start) : reportLines s = [s.header] := by
  have hsubject : subject? s = none := by
    unfold subject?
    rw [hlabel]
    show (if isOutside label s.text.length then none else
      Excerpt.between? s.text.toList label.start
        (max label.start (label.stop - 1)) >>= fun excerpt => some (excerpt, label)) = _
    rw [isOutside, decide_eq_true houtside, Bool.or_true, Bool.true_or]
    rfl
  unfold reportLines
  rw [hsubject]

/-- Reports are drawn as is assumed. -/
theorem draw_reports : DrawsReports (fun s => some (draw s)) where
  place := by
    intro s label before after hlabel _ htext hfeeds hstart hempty hstop
    have hlength : s.text.length = before.length + after.length := by
      rw [← String.length_toList, htext, List.length_append]
    have hafter : after ≠ [] := List.length_pos_iff.mp (by omega)
    rw [htext] at hfeeds
    -- the place is on a line of the text, and so is the last offset that is underlined
    obtain ⟨line, hnumber, hlineStart, hlineStop, -, -, hat⟩ := lineAt?_lines hfeeds hafter
    obtain ⟨last, hlast⟩ : ∃ last, lineAt? (lines s.text.toList) (label.stop - 1) = some last := by
      rw [htext]
      exact lineAt?_isSome (List.append_ne_nil_of_right_ne_nil before hafter) _
    have hlines : reportLines s = s.header :: body s.fileName ⟨line, last⟩ label s.remarks := by
      refine reportLines_inside hlabel hempty hstop ?_ hlast
      rw [htext]
      exact hat _ (by omega) (by omega)
    have hcolumn : label.start - line.start = (lineHead before).length := by omega
    refine ⟨reportLines s, draw s, rfl, ?_, ?_⟩
    · rw [toList_draw]
      exact .refl _
    · rw [hlines, ← hnumber, ← hcolumn]
      exact body_names s ⟨line, last⟩ label
  piece := by
    intro s label before piece after hlabel _ htext hfeeds hpiece hline hstart hstop _
    -- a piece within one line is shown with that line
    obtain ⟨line, hnumber, hchars, hlines⟩ :=
      reportLines_piece htext hfeeds hpiece hline hlabel hstart hstop
    refine ⟨reportLines s, draw s, rfl, ?_, ?_⟩
    · rw [toList_draw]
      exact .refl _
    · rw [hlines, ← hnumber]
      exact pieceReport_shows _ _ _ hchars
  -- a label outside of the text is left out, and the report has its header only
  outside := by
    intro s label hlabel _ _ houtside
    refine ⟨draw s, rfl, ?_⟩
    rw [toList_draw, reportLines_outside hlabel houtside]
    exact .refl _

end Lox.Equipment
