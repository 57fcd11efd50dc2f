/-
`Lox.Proofs.Equipment.Arguments` -- the reader of arguments does what is assumed of one.

Arguments are read one after the other into a draft, and a flag only adds itself to that:
whatever is read behind it is read as it would be without it (`addAll_minds`). So a flag may be
put in anywhere, as long as it is read as a flag there, and as it is not given again
(`addAll_insert`).
-/
import Lox.Equipment.Arguments
import Lox.Proofs.Command.Arguments

set_option autoImplicit false

namespace Lox.Equipment

open Command (Arguments Flag Gives ReadsArguments)

namespace Draft

variable {d d' e : Draft} {flag : Flag} {argument : String} {rest : List String}

/-- Another draft, in which one more flag has been given. -/
structure Extra (flag : Flag) (d d' : Draft) : Prop where
  file : d'.file = d.file
  showTree : d'.showTree = d.showTree
  verb : d'.verb = d.verb
  operands : d'.operands = d.operands
  recent : ∀ other, other ≠ flag → (other ∈ d'.recent ↔ other ∈ d.recent)
  flags : ∀ other, other ∈ d'.flags ↔ other = flag ∨ other ∈ d.flags

/-- A step of the reading that keeps the flags that have been given, and does the same if one
more has been given that it does not give itself. -/
structure Minds (flag : Flag) (step : Draft → Except Refusal Draft) : Prop where
  keeps : ∀ {d e : Draft}, step d = .ok e → flag ∉ e.flags → flag ∉ d.flags
  follows : ∀ {d e d' : Draft}, step d = .ok e → flag ∉ e.flags → Extra flag d d' →
    ∃ e', step d' = .ok e' ∧ Extra flag e e'

/-- A step that refuses does so with the flag as without it. -/
theorem Minds.error {flag : Flag} (refusal : Refusal) : Minds flag fun _ => .error refusal where
  keeps h := nomatch h
  follows h := nomatch h

/-- A step that changes nothing keeps the flag. -/
theorem Minds.ok {flag : Flag} : Minds flag .ok where
  keeps h hnew := by cases h; exact hnew
  follows h _ hextra := by cases h; exact ⟨_, rfl, hextra⟩

/-- A choice between two steps minds no flag if the condition does not look at it. -/
theorem Minds.ite {flag : Flag} {c : Draft → Prop} [DecidablePred c]
    {step other : Draft → Except Refusal Draft} (hc : ∀ {d d'}, Extra flag d d' → (c d' ↔ c d))
    (hstep : Minds flag step) (hother : Minds flag other) :
    Minds flag fun d => if c d then step d else other d := by
  constructor
  · intro d e h hnew
    by_cases hd : c d
    · rw [if_pos hd] at h
      exact hstep.keeps h hnew
    · rw [if_neg hd] at h
      exact hother.keeps h hnew
  · intro d e d' h hnew hextra
    by_cases hd : c d
    · rw [if_pos hd] at h
      rw [if_pos ((hc hextra).mpr hd)]
      exact hstep.follows h hnew hextra
    · rw [if_neg hd] at h
      rw [if_neg (mt (hc hextra).mp hd)]
      exact hother.follows h hnew hextra

/-- Steps one after the other mind no flag if neither does. -/
theorem Minds.bind {flag : Flag} {step next : Draft → Except Refusal Draft}
    (hstep : Minds flag step) (hnext : Minds flag next) : Minds flag fun d => step d >>= next := by
  -- the first step has come to something, from where the second goes on
  have hfirst : ∀ {d e}, (step d >>= next) = .ok e → ∃ m, step d = .ok m ∧ next m = .ok e := by
    intro d e h
    cases hm : step d with
    | error refusal =>
      rw [hm] at h
      cases h
    | ok m =>
      rw [hm] at h
      exact ⟨m, rfl, h⟩
  constructor
  · intro d e h hnew
    obtain ⟨m, hm, he⟩ := hfirst h
    exact hstep.keeps hm (hnext.keeps he hnew)
  · intro d e d' h hnew hextra
    obtain ⟨m, hm, he⟩ := hfirst h
    obtain ⟨m', hm', hbetween⟩ := hstep.follows hm (hnext.keeps he hnew) hextra
    obtain ⟨e', he', hafter⟩ := hnext.follows he hnew hbetween
    refine ⟨e', ?_, hafter⟩
    rw [hm']
    exact he'

/-- Several steps mind a flag if each of them does. -/
theorem Minds.foldlM {flag : Flag} {α : Type} {step : Draft → α → Except Refusal Draft}
    (hstep : ∀ a, Minds flag (step · a)) (entries : List α) :
    Minds flag fun d => entries.foldlM step d := by
  induction entries with
  | nil => exact .ok
  | cons first entries ih =>
    simp only [List.foldlM_cons]
    exact .bind (hstep first) ih

/-! ## One argument -/

/-- Setting another flag is no matter for this one. -/
theorem addFlag_minds (flag other : Flag) : Minds flag (addFlag · other) := by
  -- what is read is the other flag, which has not been given
  have hread : ∀ {d e : Draft}, d.addFlag other = .ok e →
      other ∉ d.recent ∧ e = { d with recent := other :: d.recent } := by
    intro d e h
    unfold addFlag at h
    by_cases hgiven : other ∈ d.recent
    · rw [if_pos hgiven] at h
      cases h
    · rw [if_neg hgiven] at h
      cases h
      exact ⟨hgiven, rfl⟩
  constructor
  · intro d e h hnew
    obtain ⟨-, rfl⟩ := hread h
    exact fun hmem => hnew (List.mem_cons_of_mem _ hmem)
  · intro d e d' h hnew hextra
    obtain ⟨hgiven, rfl⟩ := hread h
    have hne : other ≠ flag := by
      rintro rfl
      exact hnew List.mem_cons_self
    refine ⟨{ d' with recent := other :: d'.recent },
      if_neg (mt (hextra.recent other hne).mp hgiven), ?_⟩
    exact {
      hextra with
      recent := fun more hmore => by rw [List.mem_cons, List.mem_cons, hextra.recent more hmore]
      flags := fun more => by
        show more ∈ other :: d'.flags ↔ more = flag ∨ more ∈ other :: d.flags
        rw [List.mem_cons, List.mem_cons, hextra.flags more]
        exact or_left_comm }

theorem addTree_minds (flag : Flag) : Minds flag addTree := by
  have hread : ∀ {d e : Draft}, d.addTree = .ok e →
      d.showTree = false ∧ e = { d with showTree := true } := by
    intro d e h
    unfold addTree at h
    cases htree : d.showTree with
    | true =>
      rw [htree] at h
      cases h
    | false =>
      rw [htree] at h
      cases h
      exact ⟨rfl, rfl⟩
  constructor
  · intro d e h hnew
    obtain ⟨-, rfl⟩ := hread h
    exact hnew
  · intro d e d' h _ hextra
    obtain ⟨htree, rfl⟩ := hread h
    refine ⟨{ d' with showTree := true }, ?_, { hextra with showTree := rfl }⟩
    unfold addTree
    rw [hextra.showTree, htree]
    rfl

/-- Neither is an operand, which is a command or its file. -/
theorem addOperand_minds (flag : Flag) (argument : String) : Minds flag (addOperand · argument) := by
  constructor
  · intro d e h hnew
    obtain ⟨file, _, _, _, verb, _⟩ := d
    cases verb <;> cases file <;> cases h <;> exact hnew
  · intro d e d' h _ hextra
    obtain ⟨file, earlier, recent, showTree, verb, operands⟩ := d
    obtain ⟨file', earlier', recent', showTree', verb', operands'⟩ := d'
    obtain ⟨rfl, rfl, rfl, rfl, hrecent, hflags⟩ := hextra
    cases verb' <;> cases file' <;> cases h <;> exact ⟨_, rfl, rfl, rfl, rfl, rfl, hrecent, hflags⟩

/-- Neither is a word, the commands among them. -/
theorem addWord_minds (flag : Flag) (argument : String) : Minds flag (addWord · argument) := by
  have hoperand := addOperand_minds flag argument
  constructor
  · intro d e h hnew
    unfold addWord at h
    split at h
    · cases h
      exact hnew
    · exact hoperand.keeps h hnew
  · intro d e d' h hnew hextra
    unfold addWord at h ⊢
    rw [hextra.verb]
    split at h
    · cases h
      refine ⟨_, rfl, hextra.file, hextra.showTree, rfl, hextra.operands, fun _ _ => Iff.rfl, ?_⟩
      exact hextra.flags
    · exact hoperand.follows h hnew hextra

theorem addShortFlag_minds (flag : Flag) (c : Char) : Minds flag (addShortFlag · c) := by
  unfold addShortFlag
  split
  · exact addFlag_minds flag .quiet
  · exact addFlag_minds flag .verbose
  · exact .ite (fun hextra => by rw [hextra.verb]) (.error _) (.error _)
  · exact .error _

theorem addLongFlag_minds (flag : Flag) (name : String) : Minds flag (addLongFlag · name) :=
  .ite (fun _ => Iff.rfl) (addFlag_minds flag .quiet) <|
  .ite (fun _ => Iff.rfl) (addFlag_minds flag .verbose) <|
  .ite (fun _ => Iff.rfl) (addFlag_minds flag .noColor) <|
  .ite (fun _ => Iff.rfl) (addFlag_minds flag .noHints) <|
  .ite (fun _ => Iff.rfl) .ok <|
  .ite (fun hextra => by rw [hextra.verb]) (addTree_minds flag) <|
  .ite (fun hextra => by rw [hextra.verb]) (.error _) (.error _)

/-- So no argument minds a flag that came before it. -/
theorem addArgument_minds (flag : Flag) (argument : String) :
    Minds flag (addArgument · argument) := by
  unfold addArgument
  split
  · exact addLongFlag_minds flag _
  · exact .foldlM (addShortFlag_minds flag) _
  · exact addWord_minds flag argument

/-! ## All arguments -/

/-- Arguments are taken one at a time, but for two dashes, behind which all are operands, and
for the log, which takes the next one along. -/
theorem addAll_cons (d : Draft) (argument : String) (rest : List String) :
    d.addAll (argument :: rest) =
      if argument = "--" then rest.foldlM addOperand d
      else if argument = "--log" then
        match rest with
        | [] => .error .missingArgument
        | _ :: rest => d.addAll rest
      else d.addArgument argument >>= fun d => d.addAll rest := by
  cases rest <;> rfl

/-- What is read behind a flag is read as it would be without it. -/
theorem addAll_minds (flag : Flag) : ∀ args : List String, Minds flag (addAll · args)
  | [] => .ok
  | argument :: rest => by
    simp only [addAll_cons]
    refine .ite (fun _ => Iff.rfl) (.foldlM (addOperand_minds flag) rest) <|
      .ite (fun _ => Iff.rfl) ?_ <|
      .bind (addArgument_minds flag argument) (addAll_minds flag rest)
    cases rest with
    | nil => exact .error _
    | cons value rest => exact addAll_minds flag rest

/-- A flag that stands by itself is read as one. -/
theorem addAll_flag (h : flag ∉ d.recent) :
    d.addAll (flag.text :: rest) = ({ d with recent := flag :: d.recent } : Draft).addAll rest := by
  have hdashes : flag.text ≠ "--" := by cases flag <;> decide
  have hlog : flag.text ≠ "--log" := by cases flag <;> decide
  have hadd : d.addArgument flag.text = d.addFlag flag := by cases flag <;> rfl
  rw [addAll_cons, if_neg hdashes, if_neg hlog, hadd, addFlag, if_neg h]
  rfl

/-- Putting the flag among the recent ones is putting it in. -/
theorem extra_cons (flag : Flag) (d : Draft) :
    Extra flag d { d with recent := flag :: d.recent } where
  file := rfl
  showTree := rfl
  verb := rfl
  operands := rfl
  recent _ hne := List.mem_cons.trans (or_iff_right hne)
  flags _ := List.mem_cons

/-- A flag may be put in wherever it is read as one. -/
theorem addAll_insert {before after : List String} (h : d.addAll (before ++ after) = .ok e)
    (hnew : flag ∉ e.flags) (hdashes : "--" ∉ before) (hlog : "--log" ∉ before) :
    ∃ e', d.addAll (before ++ flag.text :: after) = .ok e' ∧ Extra flag e e' := by
  induction before generalizing d with
  | nil =>
    have hminds := addAll_minds flag after
    have hrecent : flag ∉ d.recent :=
      fun hmem => hminds.keeps h hnew (List.mem_append_left _ hmem)
    rw [List.nil_append, addAll_flag hrecent]
    exact hminds.follows h hnew (extra_cons flag d)
  | cons argument before ih =>
    rw [List.mem_cons, not_or] at hdashes hlog
    rw [List.cons_append, addAll_cons, if_neg (Ne.symm hdashes.1), if_neg (Ne.symm hlog.1)] at h ⊢
    cases hadd : d.addArgument argument with
    | error refusal =>
      rw [hadd] at h
      cases h
    | ok between =>
      rw [hadd] at h
      exact ih h hdashes.2 hlog.2

/-- At the end the flags are what has been given. -/
theorem isSet_finish {given : Arguments} (flag : Flag) (h : d.finish = .ok given) :
    flag.isSet given = decide (flag ∈ d.flags) := by
  unfold finish at h
  cases hcommand : d.command with
  | error refusal =>
    rw [hcommand] at h
    cases h
  | ok command =>
    rw [hcommand] at h
    cases h
    cases flag <;> rfl

/-- The command is the same with the flag as without. -/
theorem Extra.command (h : Extra flag d d') : d'.command = d.command := by
  unfold Draft.command operand
  rw [h.verb, h.operands, h.showTree]

/-- The flag that was put in is given, and everything else is as before. -/
theorem Extra.finish {given : Arguments} (h : Extra flag d d') (hread : d.finish = .ok given) :
    d'.finish = .ok (flag.set given) := by
  unfold Draft.finish at hread ⊢
  rw [h.command, h.file]
  simp only [h.flags]
  cases hcommand : d.command with
  | error refusal =>
    rw [hcommand] at hread
    cases hread
  | ok command =>
    rw [hcommand] at hread
    cases hread
    refine congrArg Except.ok ?_
    cases flag <;> simp [Flag.set]

/-! ## Words -/

/-- What does not begin with a dash is a word. -/
theorem addAll_word (hword : argument.toList.head? ≠ some '-') :
    d.addAll (argument :: rest) = d.addWord argument >>= fun d => d.addAll rest := by
  have hdash : ∀ {text : String}, text.toList.head? = some '-' → argument ≠ text := by
    rintro text htext rfl
    exact hword htext
  have hadd : d.addArgument argument = d.addWord argument := by
    unfold addArgument
    split
    · rename_i hlong
      exact absurd (congrArg List.head? hlong) hword
    · rename_i hshort
      exact absurd (congrArg List.head? hshort) hword
    · rfl
  rw [addAll_cons, if_neg (hdash (by decide)), if_neg (hdash (by decide)), hadd]

/-- Behind a command, a word belongs to it. -/
theorem addAll_operand {verb : Verb} (hverb : d.verb = some verb)
    (hword : argument.toList.head? ≠ some '-') :
    d.addAll [argument] = .ok { d with operands := d.operands ++ [argument] } := by
  rw [addAll_word hword, addWord, hverb, addOperand, hverb]
  rfl

end Draft

/-- What is no name of a command is not taken for one. -/
theorem ofName?_eq_none {name : String} (h : name ∉ Command.commandNames) :
    Verb.ofName? name = none := by
  unfold Verb.ofName?
  split
  case h_5 => rfl
  all_goals exact absurd (by decide) h

/-- Arguments that were read in spite of the outcomes for refusals were read. -/
theorem ok_of_mapError {read : Except Refusal Arguments} {given : Arguments}
    (h : read.mapError Refusal.outcome = .ok given) : read = .ok given := by
  cases read with
  | error refusal => cases h
  | ok found =>
    cases h
    rfl

/-- **The reader of arguments is one**: it does with commands, files and flags what is assumed
of it. -/
theorem parse_reads : ReadsArguments parse where
  plain := by
    intro words argument given hgives hargument
    -- the command and what belongs to it are two drafts one after the other
    have hverb : ∀ {words : List String} {d : Draft} {verb : Verb},
        Draft.start.addAll (words ++ [argument]) = d.addAll [argument] → d.verb = some verb →
        parse (words ++ [argument])
          = ({ d with operands := d.operands ++ [argument] } : Draft).finish.mapError
              Refusal.outcome := by
      intro words d verb hadd hd
      rw [parse, hadd, Draft.addAll_operand hd hargument]
      rfl
    cases hgives with
    | file hname =>
      rw [List.nil_append, parse, Draft.addAll_word hargument, Draft.addWord,
        ofName?_eq_none hname]
      rfl
    | run => exact hverb (d := { Draft.start with verb := some .run }) rfl rfl
    | eval => exact hverb (d := { Draft.start with verb := some .eval }) rfl rfl
    | check => exact hverb (d := { Draft.start with verb := some .check }) rfl rfl
    | tree =>
      exact hverb (d := { Draft.start with verb := some .check, showTree := true }) rfl rfl
  flag := by
    intro before after given flag hparse hnew hdashes hlog
    have hread := ok_of_mapError hparse
    cases hadd : Draft.start.addAll (before ++ after) with
    | error refusal =>
      rw [hadd] at hread
      cases hread
    | ok d =>
      rw [hadd] at hread
      have hmem : flag ∉ d.flags := by
        rw [Draft.isSet_finish flag hread] at hnew
        exact of_decide_eq_false hnew
      obtain ⟨d', hadd', hextra⟩ := Draft.addAll_insert hadd hmem hdashes hlog
      rw [parse, hadd']
      show d'.finish.mapError Refusal.outcome = _
      rw [hextra.finish hread]
      rfl

end Lox.Equipment
