import LineCheck.Failure

/-!
The command line: reading the arguments, and the reply to a command.

Arguments are read from the left, and the first that settles the matter wins: a
request for the version or for help, or an argument that does not fit.
-/

namespace LineCheck

/-- What the program is asked to do. -/
inductive Command where
  | version
  | help
  | check (path : String) (colors : Bool)
deriving DecidableEq, Repr

/-- Why arguments are refused. -/
inductive UsageError where
  | unexpected (argument : String)
  | repeated (option : String)
  | missingInput
deriving DecidableEq, Repr

/-- The wording of a usage error. -/
def UsageError.message : UsageError → String
  | unexpected argument => s!"unexpected argument '{argument}'"
  | repeated option => s!"the option '{option}' is given more than once"
  | missingInput => "no input file is given"

/-- What the program writes, and its exit code. -/
structure Reply where
  exitCode : Nat
  stdout : String
  stderr : String
deriving DecidableEq, Repr

namespace Command

/-- The option that turns colours off. -/
def noColor : String := "--no-color"

/-- The command that an option asks for in place of a check. One letter after a
    single hyphen is enough, whatever follows it. -/
def informational? (argument : String) : Option Command :=
  if argument = "--version" then some version
  else if argument = "--help" then some help
  else match argument.toList with
    | '-' :: 'V' :: _ => some version
    | '-' :: 'h' :: _ => some help
    | _ => none

/-- Whether an argument is an option. A hyphen alone is none. -/
def isOption (argument : String) : Bool :=
  match argument.toList with
  | '-' :: _ :: _ => true
  | _ => false

/-- The command for a path, if one was given. -/
def finish (path : Option String) (plain : Bool) : Except UsageError Command :=
  match path with
  | some path => .ok (check path !plain)
  | none => .error .missingInput

/-- Reads arguments none of which is an option. -/
def readPaths (plain : Bool) : Option String → List String → Except UsageError Command
  | path, [] => finish path plain
  | none, argument :: arguments => readPaths plain (some argument) arguments
  | some _, argument :: _ => .error (.unexpected argument)

/-- Reads arguments, after a path and the option for no colours or without them. -/
def readFrom : Option String → Bool → List String → Except UsageError Command
  | path, plain, [] => finish path plain
  | path, plain, argument :: arguments =>
    if argument = "--" then readPaths plain path arguments
    else if argument = noColor then
      if plain then .error (.repeated noColor) else readFrom path true arguments
    else match informational? argument with
      | some command => .ok command
      | none =>
        if isOption argument || path.isSome then .error (.unexpected argument)
        else readFrom (some argument) plain arguments

/-- The command that arguments ask for. -/
def ofArguments (arguments : List String) : Except UsageError Command :=
  readFrom none false arguments

/-! ## Replies -/

/-- The name of the program and its version. -/
def versionText : String := "garnetc 0.1.0\n"

/-- How the program is used. -/
def helpText : String :=
  "Usage: garnetc [--no-color] INPUT\n\n" ++
  "Writes 0 if the program in INPUT is legal, 1 if it is not, 2 if INPUT cannot be read.\n"

section

variable (draw : Drawer) (read : String → Except ReadError ByteArray) (terminal : Bool)

/-- The reply to a failure of a check: the verdict, and what is emitted. A
    snippet is coloured if colours are on; a rendering, only if it goes to a
    terminal besides. -/
def failureReply (path : String) (source : Option String) (colors : Bool) (f : Failure) :
    Reply :=
  let emission := f.emission (some path) source
  ⟨f.exitCode, s!"{f.exitCode}\n",
    emission.write draw (colors && (terminal || emission.isSnippet))⟩

/-- The reply to a check of a file, given as what reading it gave. -/
def checkReply (path : String) (colors : Bool) (contents : Except ReadError ByteArray) :
    Reply :=
  match contents.bind decodeSource with
  | .error e => failureReply draw terminal path none colors (.unreadable e)
  | .ok source =>
    match checkSource source with
    | .ok _ => ⟨0, "0\n", ""⟩
    | .error v => failureReply draw terminal path (some source) colors (.illegal v)

/-- The reply to a command, where `read` reads files and `draw` draws snippets. -/
def reply : Command → Reply
  | version => ⟨0, versionText, ""⟩
  | help => ⟨0, helpText, ""⟩
  | check path colors => checkReply draw terminal path colors (read path)

/-- The reply to refused arguments. -/
def usageReply (e : UsageError) : Reply :=
  ⟨2, "", s!"error: {e.message}\n\n{helpText}"⟩

/-- The reply to arguments, where `read` reads files and `draw` draws snippets. -/
def run (arguments : List String) : Reply :=
  match ofArguments arguments with
  | .ok command => reply draw read terminal command
  | .error e => usageReply e

end

end Command

end LineCheck
