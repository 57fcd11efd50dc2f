/-
`Lox.Proofs.Report.Artist` -- what is assumed of what draws reports.

A report is drawn by a library, which is known by its documentation: it counts a text in
characters, and takes the offsets of a sketch for such counts; it names the place where the
marked piece begins, shows the line on which it lies, and puts the remarks below; and a label
that lies outside of the text is left out, so that nothing but the header is drawn.
`DrawsReports` says so of any function that might be used as that library.

How marks and margins look is left open, and so is how blank space is shown. With colours,
the drawing has sequences in it that switch them (`Coloured`).
-/
import Lox.Report
import Lox.Text.Blank
import Mathlib.Data.List.DropRight

set_option autoImplicit false

namespace Lox.Report

/-! ## Lines and columns -/

/-- No other character than a line feed ends a line. -/
def OnlyLineFeeds (cs : List Char) : Prop :=
  ∀ c ∈ cs, Text.breaksLine c → c = '\n'

-- the characters of the text are gone through, and not all that there are
instance (cs : List Char) : Decidable (OnlyLineFeeds cs) :=
  List.decidableBAll (fun c => Text.breaksLine c → c = '\n') cs

/-- Where only line feeds break lines, no other character does. -/
theorem OnlyLineFeeds.breaksLine_eq_false {cs : List Char} {c : Char} (h : OnlyLineFeeds cs)
    (hmem : c ∈ cs) (hc : c ≠ '\n') : Text.breaksLine c = false := by
  cases hbreaks : Text.breaksLine c with
  | false => rfl
  | true => exact absurd (h c hmem hbreaks) hc

/-- A part of such a text is such a text. -/
theorem OnlyLineFeeds.of_subset {cs ds : List Char} (h : OnlyLineFeeds cs) (hsub : ds ⊆ cs) :
    OnlyLineFeeds ds :=
  fun c hc => h c (hsub hc)

/-- The characters of its line that stand before a place, given the text up to there. -/
def lineHead (before : List Char) : List Char :=
  before.rtakeWhile (· != '\n')

/-- The characters of its line that stand behind a place, given the text from there. -/
def lineTail (after : List Char) : List Char :=
  after.takeWhile (· != '\n')

/-- What stands before an offset is whole lines, and then the beginning of the line that the
offset is on. -/
theorem lineHead_append (before : List Char) :
    ∃ earlier, before = earlier ++ lineHead before ∧
      (earlier = [] ∨ earlier.getLast? = some '\n') ∧ '\n' ∉ lineHead before := by
  refine ⟨before.rdropWhile (· != '\n'), List.rdropWhile_append_rtakeWhile.symm, ?_, ?_⟩
  · by_cases hnil : before.rdropWhile (· != '\n') = []
    · exact .inl hnil
    · have hlast := List.rdropWhile_last_not (· != '\n') before hnil
      rw [List.getLast?_eq_some_getLast hnil]
      simp_all
  · intro hmem
    unfold lineHead at hmem
    have hne := List.mem_rtakeWhile_imp hmem
    cases hne

/-- What stands behind it is the rest of that line, and then the lines after it. -/
theorem lineTail_append (after : List Char) :
    ∃ later, after = lineTail after ++ later ∧
      (later = [] ∨ ∃ more, later = '\n' :: more) ∧ '\n' ∉ lineTail after := by
  refine ⟨after.dropWhile (· != '\n'), List.takeWhile_append_dropWhile.symm, ?_, ?_⟩
  · cases hrest : after.dropWhile (· != '\n') with
    | nil => exact .inl rfl
    | cons c more =>
      have hnot := List.head?_dropWhile_not (· != '\n') after
      rw [hrest] at hnot
      exact .inr ⟨more, by simp_all⟩
  · intro hmem
    unfold lineTail at hmem
    have hne := List.mem_takeWhile_imp hmem
    cases hne

/-! ## Drawings -/

/-- A text in which colours have been switched, and the text without that. -/
inductive Coloured : List Char → List Char → Prop
  | nothing : Coloured [] []
  | char (c : Char) {plain text : List Char} :
    Coloured plain text → Coloured (c :: plain) (c :: text)
  | switch {code plain text : List Char} : (∀ c ∈ code, c.isDigit ∨ c = ';') →
    Coloured plain text → Coloured plain ('\x1b' :: '[' :: (code ++ 'm' :: text))

/-- Without any colours a text is as it was. -/
theorem Coloured.refl (plain : List Char) : Coloured plain plain := by
  induction plain with
  | nil => exact .nothing
  | cons c plain ih => exact .char c ih

/-- The text of some lines, each ended by a line feed. -/
def unlines (lines : List String) : List Char :=
  lines.flatMap fun line => line.toList ++ ['\n']

/-- The lines of a drawn report: below the header stands a place, as a line and a column. -/
structure Names (s : Sketch) (line column : Nat) (drawn : List String) : Prop where
  header : drawn[0]? = some s.header
  place : ∃ margin, drawn[1]? = some (String.ofList (List.replicate margin ' ') ++ "╭─["
    ++ s.fileName ++ ":" ++ toString line ++ ":" ++ toString column ++ "]")

/-- Below the place comes the line with these characters, and somewhere under that each of the
remarks. -/
structure Shows (s : Sketch) (line column : Nat) (chars : List Char) (drawn : List String) : Prop
    extends Names s line column drawn where
  excerpt : ∃ margin shown, drawn[3]? = some (String.ofList (List.replicate margin ' ')
      ++ toString line ++ " │ " ++ String.ofList shown) ∧
    shown.filter (!Text.isBlank ·) = chars.filter (!Text.isBlank ·)
  remarks : ∀ remark ∈ s.remarks, ∃ below ∈ drawn.drop 4, remark.toList <:+ below.toList

/-- What is assumed of what draws reports. -/
structure DrawsReports (draw : Artist) : Prop where
  /-- The offsets of a sketch count characters. If its only label lies in the text, the place
  that is named is the one where the label begins. -/
  place : ∀ {s : Sketch} {mark : Mark} {before after : List Char}, s.marks = [mark] →
    s.offset = mark.start → s.text.toList = before ++ after → OnlyLineFeeds s.text.toList →
    mark.start = before.length → mark.start < mark.stop → mark.stop ≤ s.text.length →
    ∃ drawn text, draw s = some text ∧ Coloured (unlines drawn) text.toList ∧
      Names s (1 + before.count '\n') ((lineHead before).length + 1) drawn
  /-- If the label covers a piece of one line, this is the line that is shown. -/
  piece : ∀ {s : Sketch} {mark : Mark} {before piece after : List Char}, s.marks = [mark] →
    s.offset = mark.start → s.text.toList = before ++ (piece ++ after) →
    OnlyLineFeeds s.text.toList → piece ≠ [] → '\n' ∉ piece → mark.start = before.length →
    mark.stop = before.length + piece.length → (∀ remark ∈ s.remarks, '\n' ∉ remark.toList) →
    ∃ drawn text, draw s = some text ∧ Coloured (unlines drawn) text.toList ∧
      Shows s (1 + before.count '\n') ((lineHead before).length + 1)
        (lineHead before ++ piece ++ lineTail after) drawn
  /-- Of a report whose only label begins behind the text, only the header is drawn. -/
  outside : ∀ {s : Sketch} {mark : Mark}, s.marks = [mark] → s.offset = mark.start →
    mark.start ≤ mark.stop → s.text.length < mark.start →
    ∃ text, draw s = some text ∧ Coloured (unlines [s.header]) text.toList

end Lox.Report
