/-
`Lox.Main` -- the program `lox`.

Everything is decided in `Lox.Command.perform`. Here the outside is looked at
and the outcome is written: files and the standard input are read only if the
command is going to look at them.
-/
import Lox.Command.Perform
import Std.Time.DateTime.Timestamp

set_option autoImplicit false

namespace Lox.Main

/-- All bytes of a stream. -/
partial def readAll (stream : IO.FS.Stream) (before : ByteArray) : IO ByteArray := do
  let chunk ← stream.read 65536
  if chunk.isEmpty then return before else readAll stream (before ++ chunk)

/-- What is found under the name of a file. -/
def readFile (name : String) : IO Command.FileContent := do
  try
    return .bytes (← IO.FS.readBinFile name)
  catch
    | .noFileOrDirectory .. => return .unreadable .missing
    | .inappropriateType .. => return .unreadable .isDirectory
    | problem => return .unreadable (.other (toString problem))

/-- The seconds since the epoch. -/
def clock : IO Float := do
  let now ← Std.Time.Timestamp.now
  return Float.ofInt now.toNanosecondsSinceUnixEpoch.val / 1e9

/-- What the command is going to look at. -/
def look (args : List String) : IO Command.World := do
  let nothing : Command.World := ⟨fun _ => .unreadable .missing, .empty, ← clock⟩
  match (Command.Tools.standard.parse args).map Command.Arguments.action with
  | .ok (.run file) | .ok (.check file _) =>
    let content ← readFile file
    return { nothing with file := fun _ => content }
  | .ok .prompt => return { nothing with input := ← readAll (← IO.getStdin) .empty }
  | _ => return nothing

end Lox.Main

/-- Runs the command line and returns its exit code. -/
def main (args : List String) : IO UInt32 := do
  let outcome := Lox.Command.perform Lox.Machine.ampleFuel (← Lox.Main.look args) args
  IO.print outcome.out
  IO.eprint outcome.err
  return outcome.code.toUInt32
