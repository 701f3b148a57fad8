import LineCheck.Fault

/-!
Diagnostics: a violation as it is told to a person, with notes and suggestions.

`Diagnostic.rendering` (`LineCheck.Diagnostic.Rendering`) writes one as text,
and `Diagnostic.emission` (`LineCheck.Diagnostic.Emission`) is what is emitted
for one, with the line of the source that it is about.
-/

namespace LineCheck

/-- A proposal for a repair, with the text to write instead, if there is one. -/
structure Suggestion where
  message : String
  replacement : Option String
deriving DecidableEq, Repr

/-- An error as it is told to a person. -/
structure Diagnostic where
  message : String
  line : Option Nat
  notes : List String
  suggestions : List Suggestion
deriving DecidableEq, Repr

namespace Diagnostic

/-- A diagnostic with a message only. -/
def error (message : String) : Diagnostic :=
  ⟨message, none, [], []⟩

/-- Names the line, in place of any line named before. -/
def atLine (d : Diagnostic) (line : Nat) : Diagnostic :=
  { d with line := some line }

/-- Adds a note after the others. -/
def withNote (d : Diagnostic) (note : String) : Diagnostic :=
  { d with notes := d.notes ++ [note] }

/-- Adds a suggestion after the others. -/
def withSuggestion (d : Diagnostic) (s : Suggestion) : Diagnostic :=
  { d with suggestions := d.suggestions ++ [s] }

end Diagnostic

/-! ## Violations -/

/-- How numbers are widened. -/
def wideningNote : String :=
  "int widens into double and boolean, double widens into boolean"

/-- The explanations that a fault comes with. -/
def Fault.notes : Fault → List String
  | uninitializedFinal _ => ["a final variable must be given a value where it is declared"]
  | incompatibleVariable _ _ _ => [wideningNote]
  | argumentType _ _ _ _ => [wideningNote]
  | notBooleanCondition _ =>
    ["a condition term must be true, false, a number, or an assigned int/double/boolean variable"]
  | _ => []

/-- The repairs that are proposed for a fault. -/
def Fault.suggestions : Fault → List Suggestion
  | missingReturn _ => [⟨"end the method body with a bare return", some "return;"⟩]
  | illegalGlobalStatement => [⟨"move the statement into a method body", none⟩]
  | _ => []

/-- The diagnostic of a violation. -/
def Violation.diagnostic (v : Violation) : Diagnostic :=
  ⟨v.fault.message, some v.line, v.fault.notes, v.fault.suggestions⟩

end LineCheck
