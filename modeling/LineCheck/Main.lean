import LineCheck.Command
import LineCheck.Diagnostic.Excerpt

/-!
The program: reads the arguments and the file, writes the reply.
-/

namespace LineCheck.Main

/-- Whether an error number of the system is `n`. It may come with either sign. -/
def isNumber (code n : UInt32) : Bool :=
  code == n || code == 0 - n

/-- Why the system could not read a file. -/
def readError : IO.Error → ReadError
  | .noFileOrDirectory .. => .notFound
  | .inappropriateType _ code _ => if isNumber code 21 then .isDirectory else .notDirectory
  | .invalidArgument filename code details =>
    if isNumber code 36 then .nameTooLong
    else .other (toString (IO.Error.invalidArgument filename code details))
  | e => .other (toString e)

/-- Reads the bytes of a file. -/
def readFile (path : String) : IO (Except ReadError ByteArray) := do
  try
    return .ok (← IO.FS.readBinFile path)
  catch e =>
    return .error (readError e)

/-- The contents of the file that the arguments ask to check. -/
def readInput (arguments : List String) : IO (Except ReadError ByteArray) :=
  match Command.ofArguments arguments with
  | .ok (.check path _) => readFile path
  | _ => return .error .notFound

end LineCheck.Main

def main (arguments : List String) : IO UInt32 := do
  let contents ← LineCheck.Main.readInput arguments
  let stdout ← IO.getStdout
  let stderr ← IO.getStderr
  let terminal ← stderr.isTty
  let reply := LineCheck.Command.run LineCheck.Snippet.draw (fun _ => contents) terminal arguments
  stdout.putStr reply.stdout
  stdout.flush
  stderr.putStr reply.stderr
  return reply.exitCode.toUInt32
