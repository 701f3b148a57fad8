import LineCheck.Diagnostic
import LineCheck.Diagnostic.Styled

/-!
Diagnostics as text: the message, the line, then every note and every suggestion
on a row of its own.
-/

namespace LineCheck.Diagnostic

open StyledText

/-- The row of a note. -/
def noteRow (note : String) : StyledText :=
  plain "  " ++ styled .boldBlue "=" ++ plain " " ++ styled .brightBlack ("note: " ++ note)
    ++ plain "\n"

/-- The row of a suggestion, and the row of its replacement, if it has one. -/
def suggestionRows (s : Suggestion) : StyledText :=
  plain "  " ++ styled .boldGreen "=" ++ plain " " ++ styled .green ("help: " ++ s.message)
    ++ plain "\n" ++
  match s.replacement with
  | some replacement => plain "        try: " ++ styled .italicGreen replacement ++ plain "\n"
  | none => []

/-- The row that names the line, if there is one. -/
def lineRow : Option Nat → StyledText
  | some line => plain "  " ++ styled .boldBlue "-->" ++ plain s!" line {line}\n"
  | none => []

/-- A diagnostic as rows of text. -/
def layout (d : Diagnostic) : StyledText :=
  styled .boldRed "error" ++ plain ": " ++ styled .bold d.message ++ plain "\n" ++ lineRow d.line
    ++ d.notes.flatMap noteRow ++ d.suggestions.flatMap suggestionRows

/-- A diagnostic as text. -/
def rendering (d : Diagnostic) (colors : Bool) : String :=
  d.layout.render colors

end LineCheck.Diagnostic
