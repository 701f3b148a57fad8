import LineCheck.Diagnostic.Rendering
import LineCheck.Text.Lines

/-!
What is emitted for a diagnostic: its rendering, or a snippet of the source that
it is about.

A snippet says which bytes of the source are labelled, and what is written
beside them. How it is drawn is left to a drawer, which is handed the snippet.
-/

namespace LineCheck

/-- A source with a label on some of its bytes. -/
structure Snippet where
  source : String
  message : String
  /-- The byte that the message is about. -/
  offset : Nat
  /-- The bytes under the label. -/
  span : Text.Span
  label : String
  note : Option String
  help : Option String
deriving DecidableEq, Repr

/-- What draws snippets, with or without colours. -/
abbrev Drawer := Snippet → Bool → String

/-- What is emitted: text as it is, or a snippet that is still to be drawn. -/
inductive Emission where
  | rendering (text : StyledText)
  | snippet (s : Snippet)
deriving DecidableEq, Repr

namespace Emission

/-- Whether a snippet is emitted. -/
def isSnippet : Emission → Bool
  | rendering _ => false
  | snippet _ => true

/-- An emission as text. -/
def write (draw : Drawer) (colors : Bool) : Emission → String
  | rendering text => text.render colors
  | snippet s => draw s colors

end Emission

/-- A suggestion on one row. -/
def Suggestion.text (s : Suggestion) : String :=
  match s.replacement with
  | some replacement => s!"{s.message} (try: {replacement})"
  | none => s.message

namespace Diagnostic

/-- The snippet of a diagnostic: the label is on the line in question, with its
    number, and of the notes and the suggestions the first ones are kept. There
    is none if the diagnostic names no line of the source. -/
def snippet? (d : Diagnostic) (source : String) : Option Snippet := do
  let line ← d.line
  let span ← Text.lineSpan? source line
  return {
    source, span
    message := d.message
    offset := span.start
    label := s!"line {line}"
    note := d.notes.head?
    help := d.suggestions.head?.map Suggestion.text }

/-- What is emitted for a diagnostic on a source. -/
def emission (d : Diagnostic) (source : String) : Emission :=
  match d.snippet? source with
  | some s => .snippet s
  | none => .rendering d.layout

end Diagnostic

end LineCheck
