import LineCheck.Check.Walk
import LineCheck.Text.Lines

/-!
Checking whole programs: the survey of all lines, then the walk through each
method in the order of their headers. The first violation ends the check.
-/

namespace LineCheck

/-- What a legal program has: lines, methods and global variables. -/
structure Summary where
  lines : Nat
  methods : Nat
  globals : Nat
deriving DecidableEq, Repr

/-- Checks the lines of a program in the given scopes. -/
def checkProgram (lines : List String) : Checking Summary := do
  let found ← surveyAll lines
  walkMethods found found.methods.toList
  let scopes ← get
  return ⟨found.lines.length, found.methods.size, scopes.global.vars.length⟩

/-- Checks the lines of a program. -/
def checkLines (lines : List String) : Except Violation Summary :=
  match checkProgram lines .initial with
  | .ok summary _ => .ok summary
  | .error violation _ => .error violation

/-- Checks the source text of a program. -/
def checkSource (source : String) : Except Violation Summary :=
  checkLines (Text.lines source)

end LineCheck
