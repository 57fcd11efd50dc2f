/-
`Lox.Proofs.Command.Prompted` -- failures at the prompt, and the lines they are drawn over.

All lines that are typed are run by one machine, and a function that one line declares is
called by later ones. When it fails there, the report is drawn over the line that called
it, as that is the text at hand, while the token that is blamed was found in the line that
declared it (`drawn_over_called_line`). So the report shows a place that has nothing to do
with the failure.

It shows the right one as long as no function of an earlier line is called: then whatever
is evaluated consists of tokens of the line itself, and the failure blames one of them.
-/
import Lox.Command.Perform
import Lox.Proofs.Command.Source

set_option autoImplicit false

namespace Lox.Command

open Machine (Request)
open Surroundings (note)

variable {fuel : Nat} {settings : Settings} {clock : Float} {line : String} {typed : List String}
  {d d' : Desk} {go : Bool}

/-! ## One line -/

/-- Several lines of answers. -/
def answerText (lines : List String) : String :=
  String.join (lines.map (· ++ "\n"))

/-- Lines said one after the other are their text in one piece. -/
theorem forM_sayLine_run (lines : List String) (d : Desk) :
    lines.forM sayLine d = .ok () (d.say (answerText lines)) :=
  forM_run (fun text d => sayLine_run d text) Desk.say_empty Desk.say_say lines d

/-- The listing of the globals is one line for each, in the order of the machine. -/
theorem showGlobals_run (d : Desk) :
    showGlobals d = .ok () (d.say (String.join (d.machine.globalBindings.map fun binding =>
      "  " ++ binding.1 ++ " = " ++ binding.2.display ++ "\n"))) :=
  forM_run (fun binding d => sayLine_run d ("  " ++ binding.1 ++ " = " ++ binding.2.display))
    Desk.say_empty Desk.say_say _ d

/-- A line with mistakes is answered with its diagnostics and runs nothing. -/
theorem runLine_faulty (h : (Program.ofSource line).diagnostics ≠ []) :
    runLine fuel settings line d = .ok () (d.note (String.join
      ((Program.ofSource line).diagnostics.map (diagnosticText settings ⟨"<repl>", line⟩)))) := by
  have hrun : runSource fuel settings true ⟨"<repl>", line⟩ d = _ := runSource_faulty d h
  unfold runLine
  rw [hrun]

/-- A line without mistakes has its request served, however that ends. -/
theorem runLine_clean (fuel : Nat) (settings : Settings) (d : Desk)
    (h : (Program.ofSource line).diagnostics = []) :
    let request := requestFor true (Program.ofSource line).stmts
    ∃ d', runLine fuel settings line d = .ok () d' ∧
      d'.machine = (d.machine.serve fuel request).takeOutput.2 := by
  intro request
  have hrun : runSource fuel settings true ⟨"<repl>", line⟩ d = _ := runSource_clean d h
  unfold runLine
  rw [hrun]
  cases (d.note (openingText settings (Program.ofSource line).stmts)).verdict fuel request with
  | done value => cases value <;> exact ⟨_, rfl, rfl⟩
  | failed failure => exact ⟨_, rfl, rfl⟩
  | outOfFuel => exact ⟨_, rfl, rfl⟩

/-- A failure is drawn over the line that is being run. -/
theorem runLine_failed {failure : Failure} (h : (Program.ofSource line).diagnostics = [])
    (hfailed : d.verdict fuel (requestFor true (Program.ofSource line).stmts) = .failed failure) :
    let stmts := (Program.ofSource line).stmts
    runLine fuel settings line d
      = .ok () (((d.note (openingText settings stmts)).served fuel (requestFor true stmts)).note
          (failureText settings ⟨"<repl>", line⟩ failure)) := by
  intro stmts
  have hopened : (d.note (openingText settings stmts)).verdict fuel (requestFor true stmts)
      = .failed failure := hfailed
  have hrun : runSource fuel settings true ⟨"<repl>", line⟩ d = _ := runSource_clean d h
  unfold runLine
  rw [hrun, hopened]
  rfl

/-- A line that is not for the prompt itself is run. -/
theorem dealWith_program (hempty : line.isEmpty = false) (hcolon : ":".isPrefixOf line = false) :
    dealWith fuel settings line d = (runLine fuel settings line >>= fun _ => pure true) d := by
  unfold dealWith
  rw [hempty, hcolon]
  rfl

/-- What a line does to the machine: nothing, or what its request does. -/
theorem dealWith_machine (h : dealWith fuel settings line d = .ok go d') :
    d'.machine = d.machine ∨ d'.machine
      = (d.machine.serve fuel (requestFor true (Program.ofSource line).stmts)).takeOutput.2 := by
  -- something is answered, and the machine left alone
  have hanswered : ∀ {job : Job Unit} {text : String}, job d = .ok () (d.say text) →
      (job >>= fun _ => pure true) d = .ok go d' → d'.machine = d.machine := by
    intro job text hjob hrun
    rw [bind_of_ok hjob] at hrun
    cases hrun
    rfl
  unfold dealWith at h
  split at h
  · cases h
    exact .inl rfl
  split at h
  · split at h
    · cases h
      exact .inl rfl
    split at h
    · exact .inl (hanswered (forM_sayLine_run helpLines d) h)
    split at h
    · exact .inl (hanswered (showGlobals_run d) h)
    · exact .inl (hanswered (sayLine_run d _) h)
  · by_cases hclean : (Program.ofSource line).diagnostics = []
    · obtain ⟨served, hrun, hserved⟩ := runLine_clean fuel settings d hclean
      rw [bind_of_ok hrun] at h
      cases h
      exact .inr hserved
    · rw [bind_of_ok (runLine_faulty hclean)] at h
      cases h
      exact .inl rfl

/-! ## Many lines -/

/-- The desk of a prompt that has dealt with these lines, the latest first, and goes on. -/
inductive Prompted (fuel : Nat) (settings : Settings) (clock : Float) : List String → Desk → Prop
  | start : Prompted fuel settings clock [] ((Desk.start clock).say (answerText banner))
  | line {typed : List String} {line : String} {d d' : Desk} :
    Prompted fuel settings clock typed d → dealWith fuel settings line d = .ok true d' →
    Prompted fuel settings clock (line :: typed) d'

/-- A line without mistakes that is not for the prompt itself is a request to the machine. -/
theorem Prompted.ran (h : Prompted fuel settings clock typed d) (hempty : line.isEmpty = false)
    (hcolon : ":".isPrefixOf line = false) (hclean : (Program.ofSource line).diagnostics = []) :
    ∃ d', Prompted fuel settings clock (line :: typed) d' ∧ d'.machine =
      (d.machine.serve fuel (requestFor true (Program.ofSource line).stmts)).takeOutput.2 := by
  obtain ⟨d', hrun, hserved⟩ := runLine_clean fuel settings d hclean
  refine ⟨d', h.line ?_, hserved⟩
  rw [dealWith_program hempty hcolon, bind_of_ok hrun]
  rfl

/-- So it is a prompt, in the middle of its input. -/
theorem Prompted.dealWithAll_run (h : Prompted fuel settings clock typed d)
    {lines : List String} (hlines : (lines.map Text.trimBlank).reverse = typed)
    (rest : List Typed) :
    dealWithAll fuel settings (lines.map .line ++ rest)
        ((Desk.start clock).say (answerText banner))
      = dealWithAll fuel settings rest d := by
  induction h generalizing lines rest with
  | start =>
    rw [List.reverse_eq_nil_iff, List.map_eq_nil_iff] at hlines
    rw [hlines]
    rfl
  | @line typed line d d' _ hline ih =>
    obtain ⟨earlier, last, rfl⟩ : ∃ earlier last, lines = earlier ++ [last] := by
      refine (List.eq_nil_or_concat' lines).resolve_left ?_
      rintro rfl
      cases hlines
    rw [List.map_append, List.reverse_append] at hlines
    obtain ⟨rfl, hearlier⟩ := List.cons_eq_cons.mp hlines
    rw [List.map_append, List.append_assoc, ih hearlier]
    exact bind_of_ok hline

/-- The prompt goes through the lines that were typed, leaving the desk as it was described,
then through the rest, and says goodbye. -/
theorem Prompted.prompt_run (h : Prompted fuel settings clock typed d) {lines : List String}
    {rest : List Typed} (hlines : (lines.map Text.trimBlank).reverse = typed) :
    prompt fuel settings (lines.map .line ++ rest) (Desk.start clock)
      = (dealWithAll fuel settings rest >>= fun _ => sayLine "Goodbye!") d := by
  unfold prompt
  rw [bind_of_ok (forM_sayLine_run banner _)]
  show EStateM.bind (dealWithAll fuel settings _) _ _ = EStateM.bind _ _ d
  unfold EStateM.bind
  rw [h.dealWithAll_run hlines]

/-- The machine of a prompt is one of a host that works with the lines. -/
theorem Prompted.ofTexts (h : Prompted fuel settings clock typed d) {sources : List String}
    (hsources : typed ⊆ sources) :
    ∃ w : Machine.Story Surroundings, w.machine = d.machine ∧ w.OfTexts sources := by
  induction h with
  | start => exact ⟨_, rfl, Machine.begin_ofTexts clock .unlimited⟩
  | @line typed line d d' _ hline ih =>
    obtain ⟨hmem, htyped⟩ := List.cons_subset.mp hsources
    obtain ⟨w, hmachine, hw⟩ := ih htyped
    rcases dealWith_machine hline with hsame | hserved
    · exact ⟨w, hmachine.trans hsame.symm, hw⟩
    · have hran := hw.serve fuel (requestFor_ordinary true line w.machine)
        (requestFor_readFrom hmem true)
      refine ⟨(w.serve note fuel (requestFor true _)).serve note fuel .takeOutput, ?_,
        hran.serve fuel trivial trivial⟩
      rw [Machine.Story.machine_serve, Machine.Story.machine_serve, hmachine, hserved]
      rfl

/-! ## Failures -/

/-- **A failure at the prompt is drawn over the line that was being run**, and it blames a
token of some line that has been typed. That is a token of the line it is drawn over if all
functions that are called while the line is run consist of tokens of this line. -/
theorem Prompted.failure_drawn (h : Prompted fuel settings clock typed d)
    (hsize : ∀ text ∈ line :: typed, text.utf8ByteSize < UInt32.size)
    (hclean : (Program.ofSource line).diagnostics = []) {failure : Failure} {t : Token}
    (hfailed : d.verdict fuel (requestFor true (Program.ofSource line).stmts) = .failed failure)
    (htoken : failure.token? = some t) :
    let stmts := (Program.ofSource line).stmts
    let story := d.machine.begin.serve note fuel (requestFor true stmts)
    runLine fuel settings line d
      = .ok () (((d.note (openingText settings stmts)).served fuel (requestFor true stmts)).note
          (failureText settings ⟨"<repl>", line⟩ failure)) ∧
    (∃ text ∈ line :: typed, t.FoundIn text) ∧
    (story.Orderly (Grammar.Fitting (· ∈ (scan line).tokens)) → t.FoundIn line) := by
  intro stmts story
  have hline : line ∈ line :: typed := List.mem_cons_self
  obtain ⟨w, hmachine, hw⟩ := h.ofTexts (List.subset_cons_self line typed)
  -- the failure blames a token in the texts, by the story of the whole session
  have hblames : Machine.Blames (line :: typed)
      (w.serve note fuel (requestFor true stmts)).moments failure t := by
    rw [Desk.verdict, ← hmachine] at hfailed
    rcases hw.serve_blames hsize (requestFor_ordinary true line w.machine)
      (requestFor_readFrom hline true) hfailed with ⟨t', hblames⟩ | ⟨_, _, rfl⟩ | ⟨_, rfl⟩
    · have htokens := hblames.token.symm.trans htoken
      rwa [← Option.some.inj htokens]
    · cases htoken
    · cases htoken
  -- for the second part the story begins now, so that only this line has been read in it
  refine ⟨runLine_failed hclean hfailed, hblames.found, fun horderly => ?_⟩
  have hformed : Stmt.AllFormed (Grammar.Fitting (· ∈ (scan line).tokens))
      (requestFor true stmts).stmts := by
    rw [stmts_requestFor]
    exact Grammar.read_formed fun _ ht => ht
  obtain ⟨hraised, hmoments⟩ := Machine.serve_explained fuel
    (requestFor_ordinary true line d.machine.begin.machine) hformed horderly
  rcases hraised failure hfailed with hnone | ⟨mo, hmo, hraises⟩
  · rw [htoken] at hnone
    cases hnone
  have hbegun := (hmoments mo hmo).resolve_left (List.not_mem_nil)
  -- a token of what was begun then, or a `this` that a `super` has to do without
  rcases hraises.token hbegun htoken with ⟨role, hmem, hfits⟩ | ⟨keyword, _, ⟨hkeyword, hkind⟩, ht, -⟩
  · exact Token.foundIn_of_mem (hsize line hline) hmem (Role.ne_eof_of_fits hfits)
  · exact absurd ht (hblames.written line hline keyword hkeyword (eq_of_beq hkind))

/-- The token that is blamed for how a piece of work ended. -/
def blamed? {α : Type} : Verdict α → Option Token
  | .failed failure => failure.token?
  | _ => none

/-- A blamed token that is found by evaluation belongs to a failure that the verdict is. -/
theorem exists_of_blamed? {α : Type} {verdict : Verdict α} {lexeme : String} {span : Span}
    (h : (blamed? verdict).map (fun t => (t.lexeme, t.span)) = some (lexeme, span)) :
    ∃ failure t, verdict = .failed failure ∧ failure.token? = some t ∧
      t.lexeme = lexeme ∧ t.span = span := by
  obtain ⟨t, htoken, ht⟩ := Option.map_eq_some_iff.mp h
  obtain ⟨hlexeme, hspan⟩ := Prod.mk.inj ht
  cases verdict with
  | failed failure => exact ⟨failure, t, rfl, htoken, hlexeme, hspan⟩
  | _ => cases htoken

/-- Whether a function is called. -/
def isCall : Machine.Event → Bool
  | .calls _ _ => true
  | _ => false

/-- Whether a token without a value is one of these. -/
def isAmong (tokens : List Token) (t : Token) : Bool :=
  t.literal.isNone && tokens.any fun u =>
    t.kind == u.kind && t.lexeme == u.lexeme && t.span == u.span && u.literal.isNone

/-- Membership that evaluation has found is membership. -/
theorem mem_of_isAmong {tokens : List Token} {t : Token} (h : isAmong tokens t = true) :
    t ∈ tokens := by
  obtain ⟨kind, lexeme, literal, span⟩ := t
  obtain ⟨hnone, hany⟩ := (Bool.and_eq_true _ _).mp h
  obtain ⟨⟨kind', lexeme', literal', span'⟩, hmem, hsame⟩ := List.any_eq_true.mp hany
  simp only [Bool.and_eq_true, beq_iff_eq, Option.isNone_iff_eq_none] at hnone hsame
  obtain ⟨⟨⟨rfl, rfl⟩, rfl⟩, rfl⟩ := hsame
  rw [hnone]
  exact hmem

/-- Whether a called function does nothing but return a constant with a sign, in words that are
among these. -/
def callsSigned (tokens : List Token) : Machine.Event → Bool
  | .calls (.function fn) _ =>
    match fn.decl.body with
    | [.returnStmt keyword (some (.unary op (.literal _)))] =>
      (Role.returning.fits keyword.kind && isAmong tokens keyword)
        && (Role.sign.fits op.kind && isAmong tokens op)
    | _ => false
  | _ => true

/-- Where only such functions are called, all functions that are called are as they should
be. -/
theorem orderly_of_callsSigned {tokens : List Token} {w : Machine.Story Surroundings}
    (h : (w.moments.all fun mo => callsSigned tokens mo.event) = true) :
    w.Orderly (Grammar.Fitting (· ∈ tokens)) := by
  intro mo hmo
  have hcalls := List.all_eq_true.mp h mo hmo
  unfold callsSigned at hcalls
  split at hcalls
  · rename_i fn args hevent
    rw [hevent]
    show Stmt.AllFormed _ fn.decl.body
    split at hcalls
    · rename_i keyword op constant hbody
      simp only [Bool.and_eq_true] at hcalls
      obtain ⟨⟨hkeyword, hkeywordMem⟩, hop, hopMem⟩ := hcalls
      rw [hbody]
      refine ⟨⟨⟨mem_of_isAmong hkeywordMem, hkeyword⟩, ?_⟩, trivial⟩
      rintro _ ⟨⟩
      exact ⟨⟨mem_of_isAmong hopMem, hop⟩, trivial⟩
    · cases hcalls
  · rename_i hother
    unfold Machine.Event.Orderly
    split
    · rename_i fn args hevent
      exact absurd hevent (hother fn args)
    · trivial

/-- How the prompt talks if no flags are given. -/
def plainSettings : Settings :=
  Arguments.nothing.settings Tools.standard.draw Tools.standard.terminal

/-- A line that declares a function of its own and calls it, after one that declares another. -/
theorem Prompted.failure_drawn_own :
    let first := "fun f() \x7b return 1; \x7d"
    let line := "fun g() \x7b return -\"a\"; \x7d g();"
    ∃ d failure t, Prompted 20 plainSettings 0 [first] d ∧
      (∀ text ∈ [line, first], text.utf8ByteSize < UInt32.size) ∧
      (Program.ofSource line).diagnostics = [] ∧
      d.verdict 20 (requestFor true (Program.ofSource line).stmts) = .failed failure ∧
      ((d.machine.begin.serve note 20 (requestFor true (Program.ofSource line).stmts)).moments.any
        fun mo => isCall mo.event) = true ∧
      failure.token? = some t ∧ t.span = ⟨17, 18, 1⟩ ∧ t.FoundIn line := by
  intro first line
  obtain ⟨d, hprompted, hserved⟩ : ∃ d, Prompted 20 plainSettings 0 [first] d ∧ d.machine = _ :=
    Prompted.start.ran (by decide +kernel) (by decide +kernel) (by decide +kernel)
  have hblamed : (blamed? (d.verdict 20 (requestFor true (Program.ofSource line).stmts))).map
      (fun t => (t.lexeme, t.span)) = some ("-", ⟨17, 18, 1⟩) := by
    rw [Desk.verdict, hserved]
    decide +kernel
  obtain ⟨failure, t, hfailed, htoken, -, hspan⟩ := exists_of_blamed? hblamed
  have hsize : ∀ text ∈ [line, first], text.utf8ByteSize < UInt32.size := by decide
  have hclean : (Program.ofSource line).diagnostics = [] := by decide +kernel
  obtain ⟨-, -, hown⟩ := hprompted.failure_drawn hsize hclean hfailed htoken
  refine ⟨d, failure, t, hprompted, hsize, hclean, hfailed, ?_, htoken, hspan,
    hown (orderly_of_callsSigned ?_)⟩
  · rw [hserved]
    decide +kernel
  · rw [hserved]
    decide +kernel

/-- The function that is called fails, and its line is longer than the one that calls it. -/
theorem Prompted.drawn_over_called_line :
    let first := "fun f() \x7b return -\"a\"; \x7d"
    let line := "f();"
    ∃ d failure t, Prompted 20 plainSettings 0 [first] d ∧
      d.verdict 20 (requestFor true (Program.ofSource line).stmts) = .failed failure ∧
      failure.token? = some t ∧
      failureText plainSettings ⟨"<repl>", line⟩ failure
        = Equipment.draw (sketch plainSettings ⟨"<repl>", line⟩ failure.diagnostic) ∧
      (sketch plainSettings ⟨"<repl>", line⟩ failure.diagnostic).text = line ∧
      ¬ IsSlice line t.span.start t.span.stop t.lexeme := by
  intro first line
  obtain ⟨d, hprompted, hserved⟩ : ∃ d, Prompted 20 plainSettings 0 [first] d ∧ d.machine = _ :=
    Prompted.start.ran (by decide +kernel) (by decide +kernel) (by decide +kernel)
  have hblamed : (blamed? (d.verdict 20 (requestFor true (Program.ofSource line).stmts))).map
      (fun t => (t.lexeme, t.span)) = some ("-", ⟨17, 18, 1⟩) := by
    rw [Desk.verdict, hserved]
    decide +kernel
  obtain ⟨failure, t, hfailed, htoken, -, hspan⟩ := exists_of_blamed? hblamed
  refine ⟨d, failure, t, hprompted, hfailed, htoken, ?_, rfl, ?_⟩
  · rw [failureText, htoken]
    rfl
  · rw [hspan]
    intro hslice
    have hstop : 18 ≤ line.utf8ByteSize := hslice.stop_isValid.le_utf8ByteSize
    exact absurd hstop (by decide)

end Lox.Command
