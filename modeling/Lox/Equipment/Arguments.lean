/-
`Lox.Equipment.Arguments` -- reading the arguments of a command line.

Flags may stand anywhere among the other arguments. The first argument that is
no flag and names a command chooses the command, and what follows belongs to it;
without one, a single argument is a file. Two dashes end the flags, so that an
argument may begin with a dash. A flag is given once before the command, and once
behind it. Asking for the version ends the reading, and so does an argument that
makes no sense; then there is nothing else to do, and the reader says what the
program leaves behind.

There is no help, and there is no log to be filtered.
-/
import Lox.Command.CommandLine

set_option autoImplicit false

namespace Lox.Equipment

open Command (Arguments Flag Outcome Subcommand)

/-! ## Refusals -/

/-- Why the reading of arguments ends without a result. -/
inductive Refusal where
  | version
  | unknownFlag (flag : String)
  | repeatedFlag (flag : String)
  | missingArgument
  | surplusArgument (argument : String)
deriving DecidableEq, Repr

/-- What the program leaves behind then. Arguments that make no sense have exit code 2. -/
def Refusal.outcome : Refusal → Outcome
  | version => ⟨0, "lox " ++ Command.version ++ "\n", ""⟩
  | unknownFlag flag => ⟨2, "", "error: unexpected argument '" ++ flag ++ "' found\n"⟩
  | repeatedFlag flag =>
    ⟨2, "", "error: the argument '" ++ flag ++ "' cannot be used multiple times\n"⟩
  | missingArgument => ⟨2, "", "error: a required argument was not provided\n"⟩
  | surplusArgument argument =>
    ⟨2, "", "error: unexpected argument '" ++ argument ++ "' found\n"⟩

/-! ## Reading the arguments -/

/-- The commands that have a name. -/
inductive Verb where
  | run | check | eval | repl
deriving DecidableEq, Repr

/-- The command of a name. -/
def Verb.ofName? : String → Option Verb
  | "run" => some .run
  | "check" => some .check
  | "eval" => some .eval
  | "repl" => some .repl
  | _ => none

/-- The arguments that have been read: the file before the command, if there is one, the flags
before the command and those since, the command, and what belongs to it. -/
structure Draft where
  file : Option String
  earlier : List Flag
  recent : List Flag
  showTree : Bool
  verb : Option Verb
  operands : List String

namespace Draft

/-- Nothing has been read yet. -/
def start : Draft :=
  { file := none, earlier := [], recent := [], showTree := false, verb := none, operands := [] }

/-- All flags that have been given. -/
def flags (d : Draft) : List Flag :=
  d.recent ++ d.earlier

/-- An argument that is no flag. -/
def addOperand (d : Draft) (argument : String) : Except Refusal Draft :=
  match d.verb, d.file with
  | some _, _ => .ok { d with operands := d.operands ++ [argument] }
  | none, none => .ok { d with file := some argument }
  | none, some _ => .error (.surplusArgument argument)

/-- An argument that is no flag, but may name the command. -/
def addWord (d : Draft) (argument : String) : Except Refusal Draft :=
  match d.verb, Verb.ofName? argument with
  | none, some verb => .ok { d with verb := some verb, earlier := d.flags, recent := [] }
  | _, _ => d.addOperand argument

/-- A flag. -/
def addFlag (d : Draft) (flag : Flag) : Except Refusal Draft :=
  if flag ∈ d.recent then .error (.repeatedFlag flag.text)
  else .ok { d with recent := flag :: d.recent }

/-- The flag that belongs to a command. -/
def addTree (d : Draft) : Except Refusal Draft :=
  if d.showTree then .error (.repeatedFlag "--ast")
  else .ok { d with showTree := true }

/-- A flag in its short form, without the dash. -/
def addShortFlag (d : Draft) : Char → Except Refusal Draft
  | 'q' => d.addFlag .quiet
  | 'v' => d.addFlag .verbose
  | 'V' => if d.verb.isNone then .error .version else .error (.unknownFlag "-V")
  | c => .error (.unknownFlag (String.ofList ['-', c]))

/-- A flag in its long form, without the dashes. -/
def addLongFlag (d : Draft) (name : String) : Except Refusal Draft :=
  if name = "quiet" then d.addFlag .quiet
  else if name = "verbose" then d.addFlag .verbose
  else if name = "no-color" then d.addFlag .noColor
  else if name = "no-hints" then d.addFlag .noHints
  else if "log=".isPrefixOf name then .ok d
  else if name = "ast" && d.verb = some .check then d.addTree
  else if name = "version" && d.verb.isNone then .error .version
  else .error (.unknownFlag ("--" ++ name))

/-- An argument that stands before two dashes. -/
def addArgument (d : Draft) (argument : String) : Except Refusal Draft :=
  match argument.toList with
  | '-' :: '-' :: name => d.addLongFlag (String.ofList name)
  | '-' :: c :: more => (c :: more).foldlM addShortFlag d
  | _ => d.addWord argument

/-- The arguments read one after the other. -/
def addAll (d : Draft) : List String → Except Refusal Draft
  | [] => .ok d
  | argument :: rest =>
    if argument = "--" then rest.foldlM addOperand d
    else if argument = "--log" then
      match rest with
      | [] => .error .missingArgument
      | _ :: rest => d.addAll rest
    else d.addArgument argument >>= fun d => d.addAll rest

/-- The single operand of a command. -/
def operand (d : Draft) : Except Refusal String :=
  match d.operands with
  | [one] => .ok one
  | [] => .error .missingArgument
  | _ :: surplus :: _ => .error (.surplusArgument surplus)

/-- The command that has been named, if it has what belongs to it. -/
def command (d : Draft) : Except Refusal (Option Subcommand) :=
  match d.verb with
  | some .run => return some (.run (← d.operand))
  | some .check => return some (.check (← d.operand) d.showTree)
  | some .eval => return some (.eval (← d.operand))
  | some .repl =>
    match d.operands with
    | [] => .ok (some .repl)
    | surplus :: _ => .error (.surplusArgument surplus)
  | none => .ok none

/-- What has been given when everything has been read. -/
def finish (d : Draft) : Except Refusal Arguments :=
  return {
    command := ← d.command
    file := d.file
    verbose := .verbose ∈ d.flags
    quiet := .quiet ∈ d.flags
    noColor := .noColor ∈ d.flags
    noHints := .noHints ∈ d.flags }

end Draft

/-- What is found among the arguments of a command line, or what the program leaves behind
that cannot do anything with them. -/
def parse (args : List String) : Except Outcome Arguments :=
  (Draft.start.addAll args >>= Draft.finish).mapError Refusal.outcome

end Lox.Equipment
