/-
`Lox.Proofs.Command.Source` -- what comes of a source.

A source with mistakes is not run: the mistakes are written, and the desk is left with the
machine it had. One without is a single request to the machine, and how that request ends
is how the command ends. What is written to the two places is put together from texts that
depend on the settings, or on the machine, and never on both.
-/
import Lox.Command.Desk
import Lox.Proofs.Failure.Origin

set_option autoImplicit false

namespace Lox.Command

open Machine (Request)

/-! ## Writing -/

/-- The desk when something has been answered. -/
def Desk.say (d : Desk) (text : String) : Desk :=
  { d with out := d.out ++ text }

/-- The desk when something has been said about the program. -/
def Desk.note (d : Desk) (text : String) : Desk :=
  { d with err := d.err ++ text }

namespace Desk

variable (d : Desk) (text : String)

@[simp] theorem say_machine : (d.say text).machine = d.machine := rfl
@[simp] theorem say_out : (d.say text).out = d.out ++ text := rfl
@[simp] theorem say_err : (d.say text).err = d.err := rfl
@[simp] theorem note_machine : (d.note text).machine = d.machine := rfl
@[simp] theorem note_out : (d.note text).out = d.out := rfl
@[simp] theorem note_err : (d.note text).err = d.err ++ text := rfl

/-- Saying nothing leaves the desk as it is. -/
@[simp] theorem say_empty : d.say "" = d := by
  rw [say, String.append_empty]

@[simp] theorem note_empty : d.note "" = d := by
  rw [note, String.append_empty]

/-- What is said in two goes is said in one. -/
theorem say_say (more : String) : (d.say text).say more = d.say (text ++ more) := by
  rw [say, say, say, String.append_assoc]

theorem note_note (more : String) : (d.note text).note more = d.note (text ++ more) := by
  rw [note, note, note, String.append_assoc]

end Desk

section Jobs

variable {α β : Type} {job : Job α} {f : α → Job β} {d d' : Desk}

/-- A job that comes through hands its value and its desk to the next. -/
theorem bind_of_ok {a : α} (h : job d = .ok a d') : (job >>= f) d = f a d' := by
  show EStateM.bind job f d = _
  rw [EStateM.bind, h]

/-- One that fails ends the jobs after it. -/
theorem bind_of_error {e : CommandError} (h : job d = .error e d') :
    (job >>= f) d = .error e d' := by
  show EStateM.bind job f d = _
  rw [EStateM.bind, h]

/-- A job that writes one thing after the other writes all of them. -/
theorem forM_run {job : α → Job Unit} {write : Desk → String → Desk} {text : α → String}
    (hjob : ∀ a d, job a d = .ok () (write d (text a))) (hempty : ∀ d, write d "" = d)
    (hmore : ∀ d text more, write (write d text) more = write d (text ++ more))
    (entries : List α) (d : Desk) :
    entries.forM job d = .ok () (write d (String.join (entries.map text))) := by
  induction entries generalizing d with
  | nil =>
    rw [List.map_nil, String.join_nil, hempty]
    rfl
  | cons first rest ih =>
    have hfirst : (first :: rest).forM job d = rest.forM job (write d (text first)) :=
      bind_of_ok (hjob first d)
    rw [hfirst, ih, hmore, List.map_cons, String.join_cons]

end Jobs

variable (settings : Settings) (source : Source) (d : Desk)

/-- A noted line goes to the errors, with its line feed. -/
theorem noteLine_run (text : String) : noteLine text d = .ok () (d.note (text ++ "\n")) := by
  rw [← Desk.note_note]
  rfl

/-- A line that is said goes to the output. -/
theorem sayLine_run (text : String) : sayLine text d = .ok () (d.say (text ++ "\n")) := by
  rw [← Desk.say_say]
  rfl

/-- A diagnostic as it is drawn, or this line if it cannot be. -/
def drawnText (settings : Settings) (source : Source) (d : Diagnostic) (line : String) : String :=
  (settings.draw (sketch settings source d)).getD (line ++ "\n")

/-- A diagnostic as it is written. -/
def diagnosticText (settings : Settings) (source : Source) (d : Diagnostic) : String :=
  if settings.quiet then d.text ++ "\n" else drawnText settings source d d.text

/-- A failure as it is written. -/
def failureText (settings : Settings) (source : Source) (f : Failure) : String :=
  if settings.quiet || f.token?.isNone then f.report ++ "\n"
  else drawnText settings source f.diagnostic f.report

/-- What is said of a source without mistakes before it is run. -/
def openingText (settings : Settings) (stmts : List Stmt) : String :=
  if settings.verbose then
    settings.paint 34 "info:" ++ " Parsed " ++ toString stmts.length ++ " statements" ++ "\n"
  else ""

/-- Whether a diagnostic is drawn or falls back to a line, its text goes to the errors and
nothing else happens. -/
theorem drawOr_run (diagnostic : Diagnostic) (line : String) :
    drawOr settings source diagnostic line d
      = .ok () (d.note (drawnText settings source diagnostic line)) := by
  unfold drawOr drawnText
  cases settings.draw (sketch settings source diagnostic) with
  | some report => rfl
  | none => exact noteLine_run d line

/-- A diagnostic that is shown goes to the errors as its text. -/
theorem showDiagnostic_run (diagnostic : Diagnostic) :
    showDiagnostic settings source diagnostic d
      = .ok () (d.note (diagnosticText settings source diagnostic)) := by
  unfold showDiagnostic diagnosticText
  by_cases hquiet : settings.quiet
  · rw [if_pos hquiet, if_pos hquiet, noteLine_run]
  · rw [if_neg hquiet, if_neg hquiet, drawOr_run]

theorem showFailure_run (failure : Failure) :
    showFailure settings source failure d
      = .ok () (d.note (failureText settings source failure)) := by
  unfold showFailure failureText
  by_cases hplain : (settings.quiet || failure.token?.isNone) = true
  · rw [if_pos hplain, if_pos hplain, noteLine_run]
  · rw [if_neg hplain, if_neg hplain, drawOr_run]

/-- All diagnostics go there in order. -/
theorem forM_showDiagnostic_run (diagnostics : List Diagnostic) :
    diagnostics.forM (showDiagnostic settings source) d
      = .ok () (d.note (String.join (diagnostics.map (diagnosticText settings source)))) :=
  forM_run (fun diagnostic d => showDiagnostic_run settings source d diagnostic)
    Desk.note_empty Desk.note_note diagnostics d

/-! ## Reading -/

section Reading

variable {settings source}

/-- A source with mistakes is not read. -/
theorem readProgram_faulty (h : (Program.ofSource source.text).diagnostics ≠ []) :
    readProgram settings source d
      = .error (.illFormed (Program.ofSource source.text).diagnostics.length)
          (d.note (String.join ((Program.ofSource source.text).diagnostics.map
            (diagnosticText settings source)))) := by
  have hsome : ¬ (Program.ofSource source.text).diagnostics.isEmpty = true := by
    rwa [List.isEmpty_iff]
  unfold readProgram
  dsimp only
  rw [if_neg hsome, bind_of_ok (forM_showDiagnostic_run settings source d _)]
  rfl

/-- A text without mistakes is read into its statements. At most the opening text is noted. -/
theorem readProgram_clean (h : (Program.ofSource source.text).diagnostics = []) :
    readProgram settings source d = .ok (Program.ofSource source.text).stmts
      (d.note (openingText settings (Program.ofSource source.text).stmts)) := by
  unfold readProgram openingText
  dsimp only
  rw [if_pos (List.isEmpty_iff.mpr h)]
  by_cases hverbose : settings.verbose
  · rw [if_pos hverbose, if_pos hverbose, bind_of_ok (noteLine_run d _)]
    rfl
  · rw [if_neg hverbose, if_neg hverbose, Desk.note_empty]
    rfl

end Reading

/-! ## Running -/

/-- What a source without mistakes asks of the machine. With `echo`, a program that is a
single expression is evaluated. -/
def requestFor (echo : Bool) (stmts : List Stmt) : Request :=
  match if echo then loneExpression? stmts else none with
  | some expr => .evaluate expr
  | none => .interpret stmts

/-- The expression to be echoed is a statement of the program. -/
theorem mem_of_loneExpression? {stmts : List Stmt} {expr : Expr}
    (h : loneExpression? stmts = some expr) : .expression expr ∈ stmts := by
  unfold loneExpression? at h
  split at h
  · cases h
    exact List.mem_singleton_self _
  · cases h

/-- What a command asks of the machine is always an ordinary request. -/
theorem requestFor_ordinary (echo : Bool) (source : String) (m : Machine) :
    (requestFor echo (Program.ofSource source).stmts).Ordinary m := by
  unfold requestFor
  cases echo with
  | false => exact ⟨source, rfl⟩
  | true =>
    cases hlone : loneExpression? (Program.ofSource source).stmts with
    | some expr => exact ⟨source, mem_of_loneExpression? hlone⟩
    | none => exact ⟨source, rfl⟩

/-- It is also read from the text of the command. -/
theorem requestFor_readFrom {source : String} {sources : List String} (h : source ∈ sources)
    (echo : Bool) : (requestFor echo (Program.ofSource source).stmts).ReadFrom sources := by
  unfold requestFor
  cases echo with
  | false => exact ⟨source, h, rfl⟩
  | true =>
    cases hlone : loneExpression? (Program.ofSource source).stmts with
    | some expr => exact ⟨source, h, mem_of_loneExpression? hlone⟩
    | none => exact ⟨source, h, rfl⟩

/-- A request runs all that has been read, and nothing else. -/
theorem stmts_requestFor (echo : Bool) (stmts : List Stmt) :
    (requestFor echo stmts).stmts = stmts := by
  unfold requestFor loneExpression?
  cases echo with
  | false => rfl
  | true => split <;> grind [Request.stmts]

/-- How a request to the machine of a desk ends. -/
def Desk.verdict (fuel : Nat) (request : Request) : Verdict (Option Value) :=
  (d.machine.perform (request.work fuel)).1

/-- The desk when the machine has served a request, and what was printed has been written. -/
def Desk.served (fuel : Nat) (request : Request) : Desk :=
  { d with
    machine := (d.machine.serve fuel request).takeOutput.2
    out := d.out ++ (d.machine.serve fuel request).takeOutput.1 }

/-- How a command ends when its request has ended, and with which desk. -/
def ending (settings : Settings) (source : Source) (d : Desk) :
    Verdict (Option Value) → EStateM.Result CommandError Desk Unit
  | .done (some value) => .ok () (d.say (value.display ++ "\n"))
  | .done none => .ok () d
  | .failed failure => .error .runFailed (d.note (failureText settings source failure))
  | .outOfFuel => .error .outOfFuel d

section Running

variable {settings source}

/-- A piece of work, and what follows from how it ended. -/
theorem work_conclude_run {α : Type} {run : Run α} {f : α → Option Value}
    {onDone : α → Job Unit}
    (hdone : ∀ a d, onDone a d = ending settings source d (.done (f a))) :
    (work run >>= fun verdict => conclude settings source verdict onDone) d
      = ending settings source
          { d with
            machine := (d.machine.perform (f <$> run)).2.takeOutput.2
            out := d.out ++ (d.machine.perform (f <$> run)).2.takeOutput.1 }
          (d.machine.perform (f <$> run)).1 := by
  have hmap : d.machine.perform (f <$> run) = d.machine.perform (EStateM.map f run) := rfl
  show EStateM.bind (work run) _ d = _
  rw [hmap]
  unfold EStateM.bind work Machine.perform EStateM.map
  cases run d.machine with
  | ok a m =>
    show onDone a _ = _
    rw [hdone]
    rfl
  | error halt m =>
    cases halt with
    | outOfFuel => rfl
    | failed failure => exact bind_of_ok (showFailure_run settings source _ failure)

/-- A text with mistakes is not run. Its diagnostics are noted and counted. -/
theorem runSource_faulty {fuel : Nat} {echo : Bool}
    (h : (Program.ofSource source.text).diagnostics ≠ []) :
    runSource fuel settings echo source d
      = .error (.illFormed (Program.ofSource source.text).diagnostics.length)
          (d.note (String.join ((Program.ofSource source.text).diagnostics.map
            (diagnosticText settings source)))) :=
  bind_of_error (readProgram_faulty d h)

/-- A source without mistakes is one request, and ends as that does. -/
theorem runSource_clean {fuel : Nat} {echo : Bool}
    (h : (Program.ofSource source.text).diagnostics = []) :
    let stmts := (Program.ofSource source.text).stmts
    let opened := d.note (openingText settings stmts)
    runSource fuel settings echo source d
      = ending settings source (opened.served fuel (requestFor echo stmts))
          (opened.verdict fuel (requestFor echo stmts)) := by
  intro stmts opened
  have hread : readProgram settings source d = .ok stmts opened := readProgram_clean d h
  unfold runSource
  rw [bind_of_ok hread]
  unfold Desk.served Desk.verdict requestFor
  rw [← Machine.perform_work_snd]
  -- a single expression is evaluated, and everything else is run as a program
  cases (if echo then loneExpression? stmts else none) with
  | some expr => exact work_conclude_run opened fun value d => sayLine_run d value.display
  | none => exact work_conclude_run opened fun _ _ => rfl

end Running

/-! ## Checking -/

section Checking

variable {settings source}

/-- Checking it notes and counts the same diagnostics, whether the tree was asked for or not. -/
theorem checkSource_faulty {showTree : Bool} (h : (Program.ofSource source.text).diagnostics ≠ []) :
    checkSource settings showTree source d
      = .error (.illFormed (Program.ofSource source.text).diagnostics.length)
          (d.note (String.join ((Program.ofSource source.text).diagnostics.map
            (diagnosticText settings source)))) :=
  bind_of_error (readProgram_faulty d h)

/-- What is said of a source without mistakes that is only checked. -/
def checkText (settings : Settings) (showTree : Bool) (stmts : List Stmt) : String :=
  if showTree || settings.quiet then openingText settings stmts
  else openingText settings stmts ++ (settings.paint 32 "OK - No errors found" ++ "\n")

/-- The machine has no part in checking a source, and only a tree is an answer. -/
theorem checkSource_clean {showTree : Bool} (h : (Program.ofSource source.text).diagnostics = []) :
    let stmts := (Program.ofSource source.text).stmts
    checkSource settings showTree source d
      = .ok () ((d.note (checkText settings showTree stmts)).say
          (if showTree then Stmt.renderProgram stmts else "")) := by
  intro stmts
  have hread : readProgram settings source d = .ok stmts (d.note (openingText settings stmts)) :=
    readProgram_clean d h
  unfold checkSource checkText
  rw [bind_of_ok hread]
  cases showTree with
  | true => rfl
  | false =>
    rw [if_neg Bool.false_ne_true, Bool.false_or, if_neg Bool.false_ne_true, Desk.say_empty]
    cases hquiet : settings.quiet with
    | true => rfl
    | false =>
      show noteLine _ (d.note (openingText settings stmts)) = _
      rw [noteLine_run, Desk.note_note]
      rfl

end Checking

end Lox.Command
