/-
`Lox.Proofs.Command.Agreement` -- the commands that take a source agree about it.

A source can be run from a file, with or without the name of the command, it can be
evaluated as it stands, and it can be checked. All of them read it in the same way, so they
have the same mistakes to complain of, and a source with mistakes is not run by any of
them. One without is executed on a new machine: what it prints and whether it fails decides
the output and the exit code (`commands_agree`). Only the evaluation of a single expression
goes another way through the machine, and adds the value to the output.

What the flags say has a part in what is written about a source, and none in the rest. The
arguments may be read by anything that reads them as it should, and reports drawn by anything.
-/
import Lox.Command.Perform
import Lox.Proofs.Command.Source
import Lox.Proofs.Equipment.Arguments
import Lox.Proofs.Machine.Executed

set_option autoImplicit false

namespace Lox.Command

open Machine (Executes Echoes)

variable {fuel : Nat} {settings : Settings} {clock : Float} {stmts : List Stmt} {printed : String}
  {failure? : Option Failure} {echo : Bool} {source : Source} {world : World} {d : Desk}
  {tools : Tools} {typed : List Typed}

/-! ## How requests end -/

/-- Unless a single expression is to be evaluated, a program is run. -/
theorem requestFor_eq_interpret (h : ¬ (echo = true ∧ ∃ expr, stmts = [.expression expr])) :
    requestFor echo stmts = .interpret stmts := by
  unfold requestFor
  cases echo with
  | false => rfl
  | true =>
    have hlone : loneExpression? stmts = none := by
      unfold loneExpression?
      split
      · exact absurd ⟨rfl, _, rfl⟩ h
      · rfl
    rw [if_pos rfl, hlone]

/-- If what is asked for has a value, it is the one of a single expression. -/
def Answers (echo : Bool) (clock : Float) (stmts : List Stmt) (value : Value) : Prop :=
  echo = true ∧ Echoes clock stmts value

/-- The verdict on a program that fails so, or else does not fail. It has a value if there is
one that is good, and then only that one is. -/
inductive Settled (good : Value → Prop) : Option Failure → Verdict (Option Value) → Prop
  | answered {value : Value} : good value → (∀ other, good other → other = value) →
    Settled good none (.done (some value))
  | finished : (∀ value, ¬ good value) → Settled good none (.done none)
  | failed {failure : Failure} : (∀ value, ¬ good value) →
    Settled good (some failure) (.failed failure)

/-- What is asked of a new machine ends when this has been printed, as the program does. -/
def Serves (fuel : Nat) (echo : Bool) (clock : Float) (stmts : List Stmt) (printed : String)
    (failure? : Option Failure) : Prop :=
  ∃ verdict m, m.sink.contents = printed ∧
    (Machine.boot clock .unlimited).perform ((requestFor echo stmts).work fuel) = (verdict, m) ∧
    Settled (Answers echo clock stmts) failure? verdict

/-- The evaluation of a single expression. -/
theorem serves_lone {expr : Expr} (h : Executes clock [.expression expr] printed failure?) :
    ∃ least, ∀ fuel ≥ least, Serves fuel true clock [.expression expr] printed failure? := by
  obtain ⟨least, m, hprinted, hends⟩ := h.lone
  refine ⟨least, fun fuel hfuel => ?_⟩
  have hwork : (requestFor true [.expression expr]).work fuel
      = EStateM.map some (Machine.evaluate fuel expr) := rfl
  rcases hends fuel hfuel with ⟨rfl, value, hvalue⟩ | ⟨failure, rfl, hfailed⟩
  · refine ⟨.done (some value), m, hprinted, ?_, .answered ?_ ?_⟩
    · rw [hwork, Machine.perform, EStateM.map, hvalue]
    · exact ⟨rfl, expr, fuel, m, rfl, hvalue⟩
    · exact fun other hother => hother.2.value_eq hvalue
  · refine ⟨.failed failure, m, hprinted, ?_, .failed ?_⟩
    · rw [hwork, Machine.perform, EStateM.map, hfailed]
    · exact fun value hanswers => hanswers.2.not_failed hfailed

/-- The run of a program. -/
theorem serves_program (h : Executes clock stmts printed failure?)
    (hlone : ¬ (echo = true ∧ ∃ expr, stmts = [.expression expr])) :
    ∃ least, ∀ fuel ≥ least, Serves fuel echo clock stmts printed failure? := by
  obtain ⟨least, m, hprinted, hends⟩ := h.run
  refine ⟨least, fun fuel hfuel => ?_⟩
  have hwork : (requestFor echo stmts).work fuel
      = EStateM.map (fun _ => none) (Machine.runProgram fuel stmts) := by
    rw [requestFor_eq_interpret hlone]
    rfl
  have hnone : ∀ value, ¬ Answers echo clock stmts value := by
    rintro value ⟨hecho, expr, _, _, hstmts, -⟩
    exact hlone ⟨hecho, expr, hstmts⟩
  rcases hends fuel hfuel with ⟨rfl, hok⟩ | ⟨failure, rfl, hfailed⟩
  · refine ⟨.done none, m, hprinted, ?_, .finished hnone⟩
    rw [hwork, Machine.perform, EStateM.map, hok]
  · refine ⟨.failed failure, m, hprinted, ?_, .failed hnone⟩
    rw [hwork, Machine.perform, EStateM.map, hfailed]

/-- With a bound that is enough, what is asked for is served. -/
theorem serves_of_executes (h : Executes clock stmts printed failure?) (echo : Bool) :
    ∃ least, ∀ fuel ≥ least, Serves fuel echo clock stmts printed failure? := by
  by_cases hlone : echo = true ∧ ∃ expr, stmts = [.expression expr]
  · obtain ⟨rfl, expr, rfl⟩ := hlone
    exact serves_lone h
  · exact serves_program h hlone

/-! ## How jobs end -/

/-- The desk when a job has ended, however it did. -/
def deskOf : EStateM.Result CommandError Desk Unit → Desk
  | .ok _ d | .error _ d => d

/-- The exit code of a job that has ended. -/
def codeOf : EStateM.Result CommandError Desk Unit → Nat
  | .ok _ _ => 0
  | .error e _ => e.exitCode

/-- The source is refused: nothing is answered, and the machine is left alone. -/
structure Refused (ended : EStateM.Result CommandError Desk Unit) (d : Desk) : Prop where
  code : codeOf ended = 65
  out : (deskOf ended).out = d.out
  machine : (deskOf ended).machine = d.machine

/-- The exit code of a source without mistakes. -/
def codeFor : Verdict (Option Value) → Nat
  | .done _ => 0
  | .failed _ | .outOfFuel => 70

/-- The value that is written behind what was printed. -/
def echoText : Verdict (Option Value) → String
  | .done (some value) => value.display ++ "\n"
  | _ => ""

section Settled

variable {good : Value → Prop} {verdict : Verdict (Option Value)}

/-- The exit code is settled by whether there was a failure. -/
theorem Settled.codeFor_eq (h : Settled good failure? verdict) :
    codeFor verdict = if failure?.isSome then 70 else 0 := by
  cases h <;> rfl

/-- An echoed value is a line of its own. -/
theorem Settled.echoText_eq {value : Value} (h : Settled good failure? verdict)
    (hvalue : good value) : echoText verdict = value.display ++ "\n" := by
  cases h with
  | answered _ honly =>
    rw [honly value hvalue]
    rfl
  | finished hnone => exact absurd hvalue (hnone value)
  | failed hnone => exact absurd hvalue (hnone value)

/-- Where there is no value to be echoed, nothing is. -/
theorem Settled.echoText_eq_empty (h : Settled good failure? verdict)
    (hnone : ∀ value, ¬ good value) : echoText verdict = "" := by
  cases h with
  | answered hvalue => exact absurd hvalue (hnone _)
  | finished => rfl
  | failed => rfl

end Settled

/-- The code that a run ends with is the one for its verdict. -/
theorem ending_codeOf (verdict : Verdict (Option Value)) :
    codeOf (ending settings source d verdict) = codeFor verdict := by
  cases verdict with
  | done value => cases value <;> rfl
  | _ => rfl

/-- At its end a run adds the echo to the output, and nothing else. -/
theorem ending_out (verdict : Verdict (Option Value)) :
    (deskOf (ending settings source d verdict)).out = d.out ++ echoText verdict := by
  cases verdict with
  | done value =>
    cases value with
    | some value => rfl
    | none => exact (String.append_empty).symm
  | _ => exact (String.append_empty).symm

section Jobs

variable {text : String}

/-- A source with mistakes is not run. -/
theorem runSource_refused (h : (Program.ofSource text).diagnostics ≠ []) (fuel : Nat)
    (settings : Settings) (echo : Bool) (name : String) (d : Desk) :
    Refused (runSource fuel settings echo ⟨name, text⟩ d) d := by
  rw [@runSource_faulty settings ⟨name, text⟩ d fuel echo h]
  exact ⟨rfl, rfl, rfl⟩

/-- One without mistakes ends as what is asked of the machine does. -/
theorem runSource_ends_clean (h : (Program.ofSource text).diagnostics = []) (fuel : Nat)
    (settings : Settings) (echo : Bool) (name : String) (d : Desk) {m : Machine}
    {verdict : Verdict (Option Value)}
    (hends : d.machine.perform ((requestFor echo (Program.ofSource text).stmts).work fuel)
      = (verdict, m)) :
    let ended := runSource fuel settings echo ⟨name, text⟩ d
    codeOf ended = codeFor verdict ∧
      (deskOf ended).out = d.out ++ m.sink.contents ++ echoText verdict := by
  have hrun := @runSource_clean settings ⟨name, text⟩ d fuel echo h
  have hverdict : (d.note (openingText settings (Program.ofSource text).stmts)).verdict fuel
      (requestFor echo (Program.ofSource text).stmts) = verdict := congrArg Prod.fst hends
  have hserved : d.machine.serve fuel (requestFor echo (Program.ofSource text).stmts) = m := by
    rw [← Machine.perform_work_snd, hends]
  dsimp only at hrun ⊢
  rw [hrun, hverdict, ending_codeOf, ending_out, Desk.served, Desk.note_machine, hserved]
  exact ⟨rfl, rfl⟩

/-- A source with mistakes does not stand a check, either. -/
theorem checkSource_refused (h : (Program.ofSource text).diagnostics ≠ [])
    (settings : Settings) (showTree : Bool) (name : String) (d : Desk) :
    Refused (checkSource settings showTree ⟨name, text⟩ d) d := by
  rw [@checkSource_faulty settings ⟨name, text⟩ d showTree h]
  exact ⟨rfl, rfl, rfl⟩

/-- One without mistakes does, and the machine has no part in it. -/
theorem checkSource_ends_clean (h : (Program.ofSource text).diagnostics = [])
    (settings : Settings) (showTree : Bool) (name : String) (d : Desk) :
    let ended := checkSource settings showTree ⟨name, text⟩ d
    codeOf ended = 0 ∧
      (deskOf ended).out
        = d.out ++ (if showTree then Stmt.renderProgram (Program.ofSource text).stmts else "") ∧
      (deskOf ended).machine = d.machine := by
  intro ended
  have hended : ended = .ok () _ := checkSource_clean d h
  rw [hended]
  exact ⟨rfl, rfl, rfl⟩

end Jobs

/-! ## Actions -/

/-- The action is about this text, which also is in the file. -/
def Action.Concerns (file text : String) : Action → Prop
  | .run name | .check name _ => name = file
  | .eval source => source = text
  | .prompt => False

section Actions

variable {file text : String} {action : Action}

/-- A source that is in a file is read from there. -/
theorem readSource_run (hfile : world.file file = .bytes text.toUTF8) (d : Desk) :
    readSource world file d = .ok ⟨file, text⟩ d := by
  have htext : (world.file file).text? = .ok text := by
    have hbytes : String.fromUTF8? text.toUTF8 = some text := dif_pos text.isValidUTF8
    rw [hfile, FileContent.text?, hbytes]
  unfold readSource
  rw [htext]
  rfl

/-- A file that can be read is run with its text. -/
theorem perform_run (hfile : world.file file = .bytes text.toUTF8) (d : Desk) :
    (Action.run file).perform fuel world typed settings d
      = runSource fuel settings false ⟨file, text⟩ d :=
  bind_of_ok (readSource_run hfile d)

/-- Likewise it is checked with its text. -/
theorem perform_check (hfile : world.file file = .bytes text.toUTF8) (showTree : Bool) (d : Desk) :
    (Action.check file showTree).perform fuel world typed settings d
      = checkSource settings showTree ⟨file, text⟩ d :=
  bind_of_ok (readSource_run hfile d)

/-- Whatever is to be done about a source with mistakes, it is not done. -/
theorem perform_refused (hfile : world.file file = .bytes text.toUTF8)
    (h : (Program.ofSource text).diagnostics ≠ []) (hconcerns : action.Concerns file text)
    (d : Desk) : Refused (action.perform fuel world typed settings d) d := by
  cases action with
  | run name =>
    cases hconcerns
    rw [perform_run hfile]
    exact runSource_refused h fuel settings false file d
  | check name showTree =>
    cases hconcerns
    rw [perform_check hfile]
    exact checkSource_refused h settings showTree file d
  | eval source =>
    cases hconcerns
    exact runSource_refused h fuel settings true "<eval>" d
  | prompt => exact hconcerns.elim

end Actions

/-! ## Command lines -/

/-- What comes of doing what has been given. -/
def endedWith (tools : Tools) (fuel : Nat) (world : World) (given : Arguments) :
    EStateM.Result CommandError Desk Unit :=
  given.action.perform fuel world (tools.lines world.input)
    (given.settings tools.draw tools.terminal) (Desk.start world.clock)

/-- The machine that a command line leaves behind. -/
def machineAfter (tools : Tools) (fuel : Nat) (world : World) (args : List String) : Machine :=
  match tools.parse args with
  | .ok given => (deskOf (endedWith tools fuel world given)).machine
  | .error _ => .boot world.clock .unlimited

/-- What is written about a source has no part in the exit code, in what was answered, or in
the machine. -/
theorem performWith_of_parse (fuel : Nat) (world : World) {args : List String} {given : Arguments}
    (hargs : tools.parse args = .ok given) :
    (∃ err, performWith tools fuel world args = ⟨codeOf (endedWith tools fuel world given),
      (deskOf (endedWith tools fuel world given)).out, err⟩) ∧
      machineAfter tools fuel world args = (deskOf (endedWith tools fuel world given)).machine := by
  have hperform : performWith tools fuel world args = outcomeOf
      (given.settings tools.draw tools.terminal) (endedWith tools fuel world given) := by
    unfold performWith
    rw [hargs]
    rfl
  have hmachine : machineAfter tools fuel world args
      = (deskOf (endedWith tools fuel world given)).machine := by
    unfold machineAfter
    rw [hargs]
  rw [hperform]
  refine ⟨?_, hmachine⟩
  cases endedWith tools fuel world given with
  | ok _ d => exact ⟨_, rfl⟩
  | error e d => exact ⟨_, rfl⟩

/-- A command line that runs a source without mistakes ends as what is asked of the machine. -/
theorem performWith_ends_clean {args : List String} {given : Arguments} {name text : String}
    {verdict : Verdict (Option Value)} {m : Machine} (hargs : tools.parse args = .ok given)
    (haction : endedWith tools fuel world given = runSource fuel
      (given.settings tools.draw tools.terminal) echo ⟨name, text⟩ (Desk.start world.clock))
    (h : (Program.ofSource text).diagnostics = [])
    (hends : (Machine.boot world.clock .unlimited).perform
      ((requestFor echo (Program.ofSource text).stmts).work fuel) = (verdict, m)) :
    ∃ err, performWith tools fuel world args
      = ⟨codeFor verdict, m.sink.contents ++ echoText verdict, err⟩ := by
  obtain ⟨⟨err, hperform⟩, -⟩ := performWith_of_parse fuel world hargs
  obtain ⟨hcode, hout⟩ := runSource_ends_clean h fuel (given.settings tools.draw tools.terminal)
    echo name (Desk.start world.clock) hends
  refine ⟨err, ?_⟩
  rw [hperform, haction, hcode, hout, Desk.start, String.empty_append]

/-- What the commands come to that take a source. `line` puts the arguments together. -/
structure Agree (tools : Tools) (fuel : Nat) (world : World) (file text printed : String)
    (failure? : Option Failure) (line : List String → String → List String) : Prop where
  /-- A source with mistakes is refused by all of them, and not executed. -/
  faulty : (Program.ofSource text).diagnostics ≠ [] →
    ∀ {words argument given}, Gives argument words given → given.action.Concerns file text →
      (∃ err, performWith tools fuel world (line words argument) = ⟨65, "", err⟩) ∧
        machineAfter tools fuel world (line words argument) = .boot world.clock .unlimited
  /-- Without mistakes it is run from the file, with the name of the command or without. -/
  run : (Program.ofSource text).diagnostics = [] →
    ∀ {words given}, Gives file words given → given.action = .run file →
      ∃ err, performWith tools fuel world (line words file)
        = ⟨if failure?.isSome then 70 else 0, printed, err⟩
  /-- A single expression that has a value is answered with that, too. -/
  evalValue : (Program.ofSource text).diagnostics = [] →
    ∀ {value}, Echoes world.clock (Program.ofSource text).stmts value →
      ∃ err, performWith tools fuel world (line ["eval"] text)
        = ⟨if failure?.isSome then 70 else 0, printed ++ (value.display ++ "\n"), err⟩
  /-- Everything else is evaluated as it is run from a file. -/
  evalOther : (Program.ofSource text).diagnostics = [] →
    (∀ value, ¬ Echoes world.clock (Program.ofSource text).stmts value) →
      ∃ err, performWith tools fuel world (line ["eval"] text)
        = ⟨if failure?.isSome then 70 else 0, printed, err⟩
  /-- What is only checked is not executed. -/
  check : (Program.ofSource text).diagnostics = [] →
    (∃ err, performWith tools fuel world (line ["check"] file) = ⟨0, "", err⟩) ∧
      machineAfter tools fuel world (line ["check"] file) = .boot world.clock .unlimited
  /-- Nor is it when its tree is shown. -/
  tree : (Program.ofSource text).diagnostics = [] →
    (∃ err, performWith tools fuel world (line ["check", "--ast"] file)
      = ⟨0, Stmt.renderProgram (Program.ofSource text).stmts, err⟩) ∧
      machineAfter tools fuel world (line ["check", "--ast"] file) = .boot world.clock .unlimited

section Agree

variable {file text : String} {line : List String → String → List String}
  (hline : AsksAlike tools.parse line) (hfile : world.file file = .bytes text.toUTF8)
  (hname : file.toList.head? ≠ some '-')
include hline hfile hname

/-- About a source with mistakes, the commands agree to refuse it. -/
theorem agree_of_faulty (htext : text.toList.head? ≠ some '-')
    (h : (Program.ofSource text).diagnostics ≠ []) :
    Agree tools fuel world file text printed failure? line where
  faulty _ words argument given hgives hconcerns := by
    have hargument : argument.toList.head? ≠ some '-' := by
      cases hgives <;> cases hconcerns <;> assumption
    obtain ⟨given', hargs, haction⟩ := hline hgives hargument
    obtain ⟨⟨err, hperform⟩, hmachine⟩ := performWith_of_parse fuel world hargs
    rw [← haction] at hconcerns
    have hrefused : Refused (endedWith tools fuel world given') (.start world.clock) :=
      perform_refused hfile h hconcerns _
    rw [hrefused.code, hrefused.out] at hperform
    rw [hrefused.machine] at hmachine
    exact ⟨⟨err, hperform⟩, hmachine⟩
  run hclean := absurd hclean h
  evalValue hclean := absurd hclean h
  evalOther hclean := absurd hclean h
  check hclean := absurd hclean h
  tree hclean := absurd hclean h

/-- What a check of a source without mistakes comes to. -/
theorem check_of_clean (h : (Program.ofSource text).diagnostics = []) {words : List String}
    {given : Arguments} {showTree : Bool} (hgives : Gives file words given)
    (hcheck : given.action = .check file showTree) :
    (∃ err, performWith tools fuel world (line words file)
      = ⟨0, if showTree then Stmt.renderProgram (Program.ofSource text).stmts else "", err⟩) ∧
      machineAfter tools fuel world (line words file) = .boot world.clock .unlimited := by
  obtain ⟨given', hargs, haction⟩ := hline hgives hname
  obtain ⟨⟨err, hperform⟩, hmachine⟩ := performWith_of_parse fuel world hargs
  have hended : endedWith tools fuel world given' = checkSource
      (given'.settings tools.draw tools.terminal) showTree ⟨file, text⟩ (.start world.clock) := by
    unfold endedWith
    rw [haction, hcheck, perform_check hfile]
  obtain ⟨hcode, hout, hkept⟩ := checkSource_ends_clean h
    (given'.settings tools.draw tools.terminal) showTree file (.start world.clock)
  rw [hended, hcode, hout, Desk.start, String.empty_append] at hperform
  rw [hended, hkept] at hmachine
  exact ⟨⟨err, hperform⟩, hmachine⟩

/-- About one without, they agree if what the runs ask of a new machine is served. -/
theorem agree_of_clean (htext : text.toList.head? ≠ some '-')
    (h : (Program.ofSource text).diagnostics = [])
    (hserves : ∀ echo,
      Serves fuel echo world.clock (Program.ofSource text).stmts printed failure?) :
    Agree tools fuel world file text printed failure? line := by
  -- what is evaluated ends with what was printed, and a value if there is one
  obtain ⟨err, verdict, heval, hsettled⟩ : ∃ err verdict,
      performWith tools fuel world (line ["eval"] text)
        = ⟨if failure?.isSome then 70 else 0, printed ++ echoText verdict, err⟩ ∧
      Settled (Answers true world.clock (Program.ofSource text).stmts) failure? verdict := by
    obtain ⟨given, hargs, haction⟩ := hline .eval htext
    obtain ⟨verdict, m, hprinted, hverdict, hsettled⟩ := hserves true
    have hended : endedWith tools fuel world given = runSource fuel
        (given.settings tools.draw tools.terminal) true ⟨"<eval>", text⟩ (.start world.clock) := by
      unfold endedWith
      rw [haction]
      rfl
    obtain ⟨err, hperform⟩ := performWith_ends_clean hargs hended h hverdict
    rw [hprinted, hsettled.codeFor_eq] at hperform
    exact ⟨err, verdict, hperform, hsettled⟩
  constructor
  case faulty => exact fun hfaulty => absurd h hfaulty
  case run =>
    intro _ words given hgives hrun
    obtain ⟨given', hargs, haction⟩ := hline hgives hname
    obtain ⟨verdict, m, hprinted, hverdict, hsettled⟩ := hserves false
    have hnone : ∀ value, ¬ Answers false world.clock (Program.ofSource text).stmts value :=
      fun _ hvalue => absurd hvalue.1 Bool.false_ne_true
    have hended : endedWith tools fuel world given' = runSource fuel
        (given'.settings tools.draw tools.terminal) false ⟨file, text⟩ (.start world.clock) := by
      unfold endedWith
      rw [haction, hrun, perform_run hfile]
    obtain ⟨err, hperform⟩ := performWith_ends_clean hargs hended h hverdict
    rw [hprinted, hsettled.codeFor_eq, hsettled.echoText_eq_empty hnone, String.append_empty]
      at hperform
    exact ⟨err, hperform⟩
  case evalValue =>
    intro _ value hvalue
    rw [hsettled.echoText_eq ⟨rfl, hvalue⟩] at heval
    exact ⟨err, heval⟩
  case evalOther =>
    intro _ hnone
    rw [hsettled.echoText_eq_empty fun value hvalue => hnone value hvalue.2, String.append_empty]
      at heval
    exact ⟨err, heval⟩
  case check => exact fun _ => check_of_clean hline hfile hname h .check rfl
  case tree => exact fun _ => check_of_clean hline hfile hname h .tree rfl

end Agree

/-- **The commands agree** about any source that comes to an end, whatever the flags say and
wherever they stand, if the arguments are read as they should be. -/
theorem commands_agree (hparse : ReadsArguments tools.parse) {file text : String}
    (hfile : world.file file = .bytes text.toUTF8) (hname : file.toList.head? ≠ some '-')
    (htext : text.toList.head? ≠ some '-')
    (hends : (Program.ofSource text).diagnostics = [] →
      Executes world.clock (Program.ofSource text).stmts printed failure?) :
    ∃ least, ∀ fuel ≥ least, ∀ before between behind : List Flag,
      (before ++ between ++ behind).Nodup →
        Agree tools fuel world file text printed failure?
          fun words argument => arguments words argument before between behind := by
  by_cases h : (Program.ofSource text).diagnostics = []
  · obtain ⟨leastRun, hrun⟩ := serves_of_executes (hends h) false
    obtain ⟨leastEval, heval⟩ := serves_of_executes (hends h) true
    refine ⟨max leastRun leastEval, fun fuel hfuel before between behind hnodup => ?_⟩
    refine agree_of_clean (hparse.asksAlike hnodup) hfile hname htext h ?_
    intro echo
    cases echo with
    | false => exact hrun fuel (by omega)
    | true => exact heval fuel (by omega)
  · refine ⟨0, fun fuel _ before between behind hnodup => ?_⟩
    exact agree_of_faulty (hparse.asksAlike hnodup) hfile hname htext h

/-- A program that prints something, and then fails. -/
theorem commands_agree_failing :
    let text := "print \"a\"; b;"
    let world : World := ⟨fun _ => .bytes text.toUTF8, .empty, 0⟩
    ∃ least, ∀ fuel ≥ least,
      (∃ err, perform fuel world ["--quiet", "a.lox", "--no-hints"] = ⟨70, "a\n", err⟩) ∧
      (∃ err, perform fuel world ["--quiet", "eval", text, "--no-hints"] = ⟨70, "a\n", err⟩) ∧
      ∃ err, perform fuel world ["--quiet", "check", "a.lox", "--no-hints"] = ⟨0, "", err⟩ := by
  intro text world
  have hclean : (Program.ofSource text).diagnostics = [] := by decide +kernel
  have hlength : (Program.ofSource text).stmts.length = 2 := by decide +kernel
  have hcomputed : ((Machine.outcome? 20 0 (Program.ofSource text).stmts).map
      fun ended => (ended.1, ended.2.isSome)) = some ("a\n", true) := by decide +kernel
  obtain ⟨⟨printed, failure?⟩, houtcome, hended⟩ := Option.map_eq_some_iff.mp hcomputed
  obtain ⟨rfl, hsome⟩ := Prod.mk.inj hended
  have hother : ∀ value, ¬ Echoes 0 (Program.ofSource text).stmts value := by
    rintro value ⟨expr, _, _, hstmts, -⟩
    rw [hstmts] at hlength
    cases hlength
  obtain ⟨least, hagree⟩ := @commands_agree _ _ world .standard Equipment.parse_reads "a.lox" text
    rfl (by decide) (by decide) fun _ => ⟨20, houtcome⟩
  refine ⟨least, fun fuel hfuel => ?_⟩
  have hends := hagree fuel hfuel [.quiet] [] [.noHints] (by decide)
  have hrun := hends.run hclean (.file (by decide)) rfl
  have heval := hends.evalOther hclean hother
  rw [hsome] at hrun heval
  exact ⟨hrun, heval, (hends.check hclean).1⟩

end Lox.Command
