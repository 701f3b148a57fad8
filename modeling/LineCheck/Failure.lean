import LineCheck.Check
import LineCheck.Diagnostic.Emission

/-!
Checking a file: the ways in which it can fail, and what is emitted for a failure.
-/

namespace LineCheck

/-- Why a file could not be read as text. -/
inductive ReadError where
  | notFound
  | isDirectory
  | notDirectory
  /-- A name in the path is too long, or the path as a whole. -/
  | nameTooLong
  /-- The path holds a NUL character, which no name has. -/
  | nulInPath
  /-- The bytes of the file are not UTF-8. -/
  | invalidText
  | other (message : String)
deriving DecidableEq, Repr

/-- The wording of a read error. -/
def ReadError.message : ReadError → String
  | notFound => "No such file or directory (os error 2)"
  | isDirectory => "Is a directory (os error 21)"
  | notDirectory => "Not a directory (os error 20)"
  | nameTooLong => "File name too long (os error 36)"
  | nulInPath => "file name contained an unexpected NUL byte"
  | invalidText => "stream did not contain valid UTF-8"
  | other message => message

/-- Why a file is not accepted: it could not be read, or the program in it is
    not legal. -/
inductive Failure where
  | unreadable (e : ReadError)
  | illegal (v : Violation)
deriving DecidableEq, Repr

namespace Failure

/-- The wording of a failure. -/
def message : Failure → String
  | unreadable e => s!"IO error: {e.message}"
  | illegal v => v.message

/-- The verdict on the file, as a number: one for an illegal program, two for an
    unreadable file. -/
def exitCode : Failure → Nat
  | unreadable _ => 2
  | illegal _ => 1

/-- The diagnostic of a failure, naming the file if its path is given. -/
def diagnostic (path : Option String) : Failure → Diagnostic
  | unreadable e =>
    let message := match path with
      | some path => s!"cannot read '{path}': {e.message}"
      | none => s!"IO error: {e.message}"
    (Diagnostic.error message).withSuggestion ⟨"check that the file exists and is readable", none⟩
  | illegal v =>
    match path with
    | some path => v.diagnostic.withNote s!"in {path}"
    | none => v.diagnostic

/-- What is emitted for a failure, with a snippet if the source is given. -/
def emission (f : Failure) (path source : Option String) : Emission :=
  match source with
  | some source => (f.diagnostic path).emission source
  | none => .rendering (f.diagnostic path).layout

end Failure

/-- The text of a file. -/
def decodeSource (bytes : ByteArray) : Except ReadError String :=
  match String.fromUTF8? bytes with
  | some source => .ok source
  | none => .error .invalidText

/-- Checks the program in a file, given as what reading it gave. -/
def checkFile (contents : Except ReadError ByteArray) : Except Failure Summary :=
  match contents.bind decodeSource with
  | .error e => .error (.unreadable e)
  | .ok source => (checkSource source).mapError .illegal

end LineCheck
