/-
`Lox.Proofs.Command.Arguments` -- flags and what stands between them.

The arguments of a command line are read by a library. What is assumed of it is what its
documentation says (`ReadsArguments`): a command is read with what belongs to it, a word
that names no command is a file, and a flag that belongs to no command may stand anywhere
and says the same wherever it stands. So flags may stand before a command, between it and
what belongs to it, and behind that; one after the other they can be taken out, and what is
asked for is the same as without them (`parse_arguments`).
-/
import Lox.Command.CommandLine

set_option autoImplicit false

namespace Lox.Command

/-! ## Flags -/

namespace Flag

/-- The arguments with several flags. -/
def setAll (flags : List Flag) (a : Arguments) : Arguments :=
  flags.foldr (fun flag a => flag.set a) a

variable {flag other : Flag} {flags : List Flag} {a : Arguments}

/-- A flag that is set is set, and no other flag is touched. -/
theorem isSet_set : flag.isSet (other.set a) = (flag == other || flag.isSet a) := by
  cases flag <;> cases other <;> rfl

/-- The flags have no say in what is to be done. -/
theorem action_set : (flag.set a).action = a.action := by
  cases flag <;> rfl

/-- Flags have no part in what is to be done. -/
theorem action_setAll : (setAll flags a).action = a.action := by
  induction flags with
  | nil => rfl
  | cons flag flags ih => exact action_set.trans ih

/-- A flag has been given only if it is one of these, or was given before. -/
theorem isSet_setAll (hmem : flag ∉ flags) (h : flag.isSet a = false) :
    flag.isSet (setAll flags a) = false := by
  induction flags with
  | nil => exact h
  | cons first flags ih =>
    rw [List.mem_cons, not_or] at hmem
    have hrest := ih hmem.2
    unfold setAll at hrest ⊢
    rw [List.foldr_cons, isSet_set, hrest, Bool.or_false, beq_eq_false_iff_ne]
    exact hmem.1

end Flag

/-! ## Readers of arguments -/

/-- The names that commands have. The last one is only there to tell of the others. -/
def commandNames : List String :=
  ["run", "check", "eval", "repl", "help"]

/-- What has been given by some words and an argument behind them. The name of a file is
enough to run it, unless a command has that name. -/
inductive Gives (argument : String) : List String → Arguments → Prop
  | run : Gives argument ["run"] { Arguments.nothing with command := some (.run argument) }
  | file : argument ∉ commandNames →
    Gives argument [] { Arguments.nothing with file := some argument }
  | eval : Gives argument ["eval"] { Arguments.nothing with command := some (.eval argument) }
  | check :
    Gives argument ["check"] { Arguments.nothing with command := some (.check argument false) }
  | tree : Gives argument ["check", "--ast"]
    { Arguments.nothing with command := some (.check argument true) }

/-- What is assumed of a reader of arguments. -/
structure ReadsArguments (parse : List String → Except Outcome Arguments) : Prop where
  /-- A subcommand is named first, and its arguments follow. An argument that names none is
  the one of the program itself. Nothing that begins with a dash is meant here, as that would
  be a flag. -/
  plain : ∀ {words : List String} {argument : String} {given : Arguments},
    Gives argument words given → argument.toList.head? ≠ some '-' →
    parse (words ++ [argument]) = .ok given
  /-- A global flag may stand anywhere, before a subcommand or among its arguments, and sets
  the same value there. It must not have been given already, two dashes must not have ended
  the flags, and it must not be taken for the value of `--log`. -/
  flag : ∀ {before after : List String} {given : Arguments} {flag : Flag},
    parse (before ++ after) = .ok given → flag.isSet given = false →
    "--" ∉ before → "--log" ∉ before →
    parse (before ++ flag.text :: after) = .ok (flag.set given)

section Reading

variable {parse : List String → Except Outcome Arguments} (h : ReadsArguments parse)
include h

/-- Several flags may stand in a place. -/
theorem ReadsArguments.flags {before after : List String} {given : Arguments} {flags : List Flag}
    (hparse : parse (before ++ after) = .ok given) (hnodup : flags.Nodup)
    (hnew : ∀ flag ∈ flags, flag.isSet given = false) (hdashes : "--" ∉ before)
    (hlog : "--log" ∉ before) :
    parse (before ++ (flags.map Flag.text ++ after)) = .ok (Flag.setAll flags given) := by
  induction flags with
  | nil => exact hparse
  | cons flag flags ih =>
    obtain ⟨hmem, hnodup⟩ := List.nodup_cons.mp hnodup
    obtain ⟨hflag, hnew⟩ := List.forall_mem_cons.mp hnew
    exact h.flag (ih hnodup hnew) (Flag.isSet_setAll hmem hflag) hdashes hlog

end Reading

/-- Arguments that begin with these words and then hand over one more, with flags before,
between and behind. -/
def arguments (words : List String) (argument : String) (before between behind : List Flag) :
    List String :=
  before.map Flag.text ++ (words ++ (between.map Flag.text ++ argument :: behind.map Flag.text))

/-- Words that give something do not end the flags. -/
theorem Gives.no_dashes {argument : String} {words : List String} {given : Arguments}
    (h : Gives argument words given) : "--" ∉ words ∧ "--log" ∉ words := by
  cases h <;> decide

/-- They give no flag. -/
theorem Gives.isSet_eq_false {argument : String} {words : List String} {given : Arguments}
    (h : Gives argument words given) (flag : Flag) : flag.isSet given = false := by
  cases h <;> cases flag <;> rfl

/-- Flags make no difference to what else is given, wherever they stand. -/
theorem ReadsArguments.parse_arguments {parse : List String → Except Outcome Arguments}
    (h : ReadsArguments parse) {argument : String} {words : List String} {given : Arguments}
    (hgives : Gives argument words given) (hargument : argument.toList.head? ≠ some '-')
    {before between behind : List Flag} (hnodup : (before ++ between ++ behind).Nodup) :
    parse (arguments words argument before between behind)
      = .ok (Flag.setAll (before ++ between ++ behind) given) := by
  obtain ⟨hfirst, hbehind, hapart⟩ := List.nodup_append.mp hnodup
  obtain ⟨hbefore, hbetween, hapart'⟩ := List.nodup_append.mp hfirst
  obtain ⟨hdashes, hlog⟩ := hgives.no_dashes
  have hword : ∀ {text : String}, text.toList.head? = some '-' → text ≠ argument := by
    rintro text htext rfl
    exact hargument htext
  -- a flag stands in one of the three places only
  have hbehindNew : ∀ flag ∉ behind, flag.isSet (Flag.setAll behind given) = false :=
    fun flag hmem => Flag.isSet_setAll hmem (hgives.isSet_eq_false flag)
  have hbetweenNew : ∀ flag ∈ between, flag.isSet (Flag.setAll behind given) = false :=
    fun flag hmem => hbehindNew flag fun hmem' =>
      hapart flag (List.mem_append_right _ hmem) flag hmem' rfl
  have hbeforeNew : ∀ flag ∈ before,
      flag.isSet (Flag.setAll between (Flag.setAll behind given)) = false := by
    intro flag hmem
    refine Flag.isSet_setAll (fun hmem' => hapart' flag hmem flag hmem' rfl)
      (hbehindNew flag fun hmem' => hapart flag (List.mem_append_left _ hmem) flag hmem' rfl)
  -- they are put in from the last place to the first
  have hlast : parse (words ++ argument :: behind.map Flag.text)
      = .ok (Flag.setAll behind given) := by
    have hplain : parse ((words ++ [argument]) ++ []) = .ok given := by
      rw [List.append_nil]
      exact h.plain hgives hargument
    have hflags := h.flags hplain hbehind (fun flag _ => hgives.isSet_eq_false flag)
      (by simpa [hdashes] using hword (by decide)) (by simpa [hlog] using hword (by decide))
    rwa [List.append_nil, List.append_assoc] at hflags
  have hmiddle := h.flags hlast hbetween hbetweenNew hdashes hlog
  have hwhole : parse ([] ++ arguments words argument before between behind)
      = .ok (Flag.setAll before (Flag.setAll between (Flag.setAll behind given))) :=
    h.flags hmiddle hbefore hbeforeNew List.not_mem_nil List.not_mem_nil
  rw [List.nil_append] at hwhole
  rw [hwhole, Flag.setAll, Flag.setAll, Flag.setAll, Flag.setAll, List.foldr_append,
    List.foldr_append]

/-- Whatever a line puts around its words, it asks for what they ask for. -/
def AsksAlike (parse : List String → Except Outcome Arguments)
    (line : List String → String → List String) : Prop :=
  ∀ {words argument given}, Gives argument words given → argument.toList.head? ≠ some '-' →
    ∃ given', parse (line words argument) = .ok given' ∧ given'.action = given.action

/-- The laws of reading are all that is needed for one question to be asked with any flags, put
before the words, between them or behind. -/
theorem ReadsArguments.asksAlike {parse : List String → Except Outcome Arguments}
    (h : ReadsArguments parse) {before between behind : List Flag}
    (hnodup : (before ++ between ++ behind).Nodup) :
    AsksAlike parse fun words argument => arguments words argument before between behind :=
  fun hgives hargument => ⟨_, h.parse_arguments hgives hargument hnodup, Flag.action_setAll⟩

end Lox.Command
