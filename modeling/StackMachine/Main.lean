import StackMachine.Cli.Execute

/-! The program itself: the command line, files and standard streams of the process. -/

namespace StackMachine

open Cli

/-- The wording of the operating system for why a file cannot be used. -/
def ioReason : IO.Error → String
  | .noFileOrDirectory .. => "No such file or directory (os error 2)"
  | .permissionDenied .. => "Permission denied (os error 13)"
  | .inappropriateType _ 20 _ => "Not a directory (os error 20)"
  | .inappropriateType .. => "Is a directory (os error 21)"
  | e => toString e

def asText (act : IO α) : IO (Except String α) := do
  match ← act.toBaseIO with
  | .ok a => return .ok a
  | .error e => return .error (ioReason e)

partial def readAll (stream : IO.FS.Stream) (acc : ByteArray) : IO ByteArray := do
  let chunk ← stream.read 65536
  if chunk.isEmpty then return acc else readAll stream (acc ++ chunk)

def process : System IO where
  fileBytes path := asText do return (← IO.FS.readBinFile path).data.toList
  readInput := do return (← readAll (← IO.getStdin) .empty).data.toList
  openLog path := asText (IO.FS.withFile path .append fun _ => pure ())

end StackMachine

open StackMachine in
def main (args : List String) : IO UInt32 := do
  match ← Cli.answer process (1 <<< 62) args with
  | none =>
    (← IO.getStderr).putStrLn "the run takes too many steps"
    return 1
  | some outcome =>
    match outcome.logFile with
    | none => pure ()
    | some (path, lines) =>
      IO.FS.withFile path .append fun file => lines.forM fun l => file.putStrLn l
    let out ← IO.getStdout
    out.write ⟨outcome.stdout⟩
    out.flush
    (← IO.getStderr).putStr outcome.stderr
    return outcome.exitCode.toUInt32
