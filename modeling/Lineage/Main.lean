import Lineage.Cli.Run
import Lineage.RequestId
import Std.Time.Format

/-!
# The program

The outer layer of the program: it reads the files and the variables that a run may need, runs, and prints the outcome.
-/

namespace Lineage.Cli

/-- The number of the operating system for a path that is too long. It may come with its sign turned. -/
def tooLongNumber : UInt32 := 36

/-- Why a file cannot be read, as far as the operating system tells. -/
def unreadableOf : IO.Error → Unreadable
  | .noFileOrDirectory .. => .missing
  | .inappropriateType none .. => .folder
  | .inappropriateType (some _) .. => .throughFile
  | e@(.invalidArgument _ number _) =>
    if number = tooLongNumber ∨ number = -tooLongNumber then .longName else .other (toString e)
  | e => .other (toString e)

/-- Reads a file. -/
def readText (path : String) : IO (Except Unreadable String) := do
  try pure (.ok (← IO.FS.readFile path))
  catch e => pure (.error (unreadableOf e))

/-- The number that bytes write, the first of which counts most. -/
def numberOfBytes (bytes : ByteArray) : Nat := bytes.toList.foldl (fun n b => 256 * n + b.toNat) 0

/-- What a run with some arguments depends on. -/
def surroundings (now : Std.Time.Timestamp) (arguments : List String) : IO Surroundings := do
  let texts ← (filesFor arguments).mapM fun path => do pure (path, ← readText path)
  let names := [Settings.enabledVariable, Settings.maxSizeVariable, filterVariable]
  let values ← names.mapM fun name => do pure (name, ← IO.getEnv name)
  let random ← IO.getRandomBytes 16
  pure
    { files := fun path => ((texts.find? (·.1 = path)).map (·.2)).getD (.error .missing)
      environment := fun name => (values.find? (·.1 = name)).bind (·.2)
      freshId := RequestId.ofTime now.toMillisecondsSinceUnixEpoch.val.toNat (numberOfBytes random) }

end Lineage.Cli

open Lineage Cli in
/-- Runs the program and prints what the run leaves behind. -/
def main (arguments : List String) : IO UInt32 := do
  let now ← Std.Time.Timestamp.now
  let begun ← IO.monoMsNow
  let outcome := run (← surroundings now arguments) arguments
  IO.print outcome.output
  let elapsed := (← IO.monoMsNow) - begun
  let timestamp := (Std.Time.DateTime.ofTimestampWithZone now .UTC).toISO8601String
  for line in outcome.errorLines timestamp elapsed do
    IO.eprintln line
  pure outcome.exit.toUInt32
