import LineCheck.Line
import LineCheck.Resolution
import LineCheck.Statement.Grammar

/-!
The survey: the first pass over a program.

It gives every line its kind and its depth, the number of blocks that are open
before it, declares the global variables and registers the methods. What stands
inside a method is left to the walk (`LineCheck.Check.Walk`). `survey` goes
through the lines once; `surveyLine` is the effect of one line.
-/

namespace LineCheck

/-- Work on the open scopes that may stop at a violation, and then leaves the
    scopes it reached. -/
abbrev Checking (α : Type) := EStateM Violation Scopes α

/-- Stops at a line. -/
def Checking.fail {α : Type} (line : Nat) (fault : Fault) : Checking α :=
  throw ⟨line, fault⟩

/-- Work of which every fault is at the given line. -/
def Resolving.atLine {α : Type} (line : Nat) (work : Resolving α) : Checking α := fun s =>
  match work s with
  | .ok a s' => .ok a s'
  | .error fault s' => .error ⟨line, fault⟩ s'

/-- A statement outside all methods: it has to be a declaration. -/
def globalStatement (line : Nat) (text : String) : Checking Unit :=
  match Statement.ofText? text with
  | some (.declaration d) => discard ((declare d).atLine line)
  | _ => .fail line .illegalGlobalStatement

/-- A block that opens outside all methods: it has to be a method. -/
def globalBlock (line : Nat) (text : String) (methods : MethodTable) : Checking MethodTable :=
  match MethodHeader.ofText? text with
  | none => .fail line .malformedMethod
  | some header =>
    match methods.register header line with
    | .ok methods' => pure methods'
    | .error fault => .fail line fault

/-- How far a survey has come: the number of open blocks, and the methods so far. -/
structure Progress where
  depth : Nat
  methods : MethodTable
deriving DecidableEq, Repr

/-- The effect of a line. Inside a method only the braces count. -/
def surveyLine (line : Nat) (text : String) (methods : MethodTable) :
    LineKind → Nat → Checking Progress
  | .returnLine, 0 => .fail line .returnOutsideMethod
  | .statement, 0 => do
    globalStatement line text
    return ⟨0, methods⟩
  | .blockOpen, 0 => do
    let methods' ← globalBlock line text methods
    return ⟨1, methods'⟩
  | .blockOpen, depth + 1 => return ⟨depth + 2, methods⟩
  | .blockClose, 0 => .fail line .unbalancedBraces
  | .blockClose, depth + 1 => return ⟨depth, methods⟩
  | _, depth => return ⟨depth, methods⟩

/-- What a survey finds: the lines of the program, and its methods. -/
structure Survey where
  lines : List Line
  methods : MethodTable
deriving DecidableEq, Repr

/-- Surveys lines after `count` others. At the end no block may be open. -/
def survey (count : Nat) (p : Progress) : List String → Checking Survey
  | [] => if p.depth = 0 then return ⟨[], p.methods⟩ else .fail count .unbalancedBraces
  | text :: texts =>
    match LineKind.ofText? text with
    | none => .fail (count + 1) .illegalLine
    | some kind => do
      let p' ← surveyLine (count + 1) text p.methods kind p.depth
      let rest ← survey (count + 1) p' texts
      return ⟨⟨count + 1, text, p.depth, kind⟩ :: rest.lines, rest.methods⟩

/-- Surveys a whole program. -/
def surveyAll (texts : List String) : Checking Survey :=
  survey 0 ⟨0, .empty⟩ texts

end LineCheck
