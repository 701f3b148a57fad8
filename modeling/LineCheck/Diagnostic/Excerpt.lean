import LineCheck.Diagnostic.Emission
import LineCheck.Text.Blank

/-!
Snippets as drawings: the line under the label in a frame, underlined, with a
pointer to the label, and below it the help and the note.

The offsets of a snippet are read as positions of characters, which they are in
a source whose characters all take one byte. Positions in a line are drawn over
cells: a tab fills up to the next multiple of four, all else takes one cell.
-/

namespace LineCheck

/-- The line that a drawing shows: its number, its text without trailing blanks,
    and the positions that are underlined. -/
structure Excerpt where
  line : Nat
  shown : List Char
  start : Nat
  width : Nat
deriving DecidableEq, Repr

namespace Excerpt

open StyledText

/-! ## The line that is shown -/

/-- The line with a position, given the runs between newlines: its number, the
    position in it, and its text. The empty run after a final newline is no
    line, and the position there is counted on from the line before it. -/
def locate? : List (List Char) → Nat → Option (Nat × Nat × List Char)
  | [], _ => none
  | run :: runs, position =>
    if runs = [] then if run = [] then none else some (1, position, run)
    else if position ≤ run.length then some (1, position, run)
    else match locate? runs (position - (run.length + 1)) with
      | some (line, position', run') => some (line + 1, position', run')
      | none => some (1, position, run)

/-- The line that is drawn for a snippet. An empty source has none. -/
def ofSnippet? (s : Snippet) : Option Excerpt := do
  let (line, start, run) ← locate? (s.source.toList.splitOn '\n') s.offset
  return ⟨line, Text.trimEnd run, start, s.span.stop - s.span.start⟩

/-! ## Cells -/

/-- The number of cells that a position takes. -/
def cells (e : Excerpt) (i : Nat) : Nat :=
  match e.shown[i]? with
  | some '\t' => 4 - i % 4
  | _ => 1

/-- The position that the label points to. -/
def middle (e : Excerpt) : Nat :=
  e.start + e.width / 2

/-- Whether a position is underlined. -/
def covers (e : Excerpt) (i : Nat) : Bool :=
  e.start ≤ i && i < e.start + e.width

/-- The cells of one position: `head`, then `tail` as often as needed. -/
def fill (e : Excerpt) (i : Nat) (head tail : Char) : List Char :=
  head :: List.replicate (e.cells i - 1) tail

/-- The cells of one position of the underline. -/
def underlineAt (e : Excerpt) (i : Nat) : List Char :=
  if i = e.middle then if e.covers i then e.fill i '┬' '─' else e.fill i '│' ' '
  else if e.covers i then e.fill i '─' '─'
  else e.fill i ' ' ' '

/-- The cells of one position of the pointer. -/
def pointerAt (e : Excerpt) (i : Nat) : List Char :=
  if i < e.middle then e.fill i ' ' ' '
  else if i = e.middle then e.fill i '╰' '─'
  else e.fill i '─' '─'

/-- A row over all positions that are drawn, two past the underlined ones. -/
def draw (e : Excerpt) (cellsAt : Nat → List Char) : String :=
  String.ofList ((List.range (e.start + e.width + 2)).flatMap cellsAt)

/-- The cells of one character of the line, blanks for a tab. -/
def shownAt (e : Excerpt) (c : Char) (i : Nat) : List Char :=
  if c = '\t' then e.fill i ' ' ' ' else [c]

/-! ## The frame -/

/-- The style of the frame. -/
def frame : Style := .palette 246

/-- The style of the left edge of rows without a number. -/
def edge : Style := .palette 240

/-- The style of the titles of help and note. -/
def footer : Style := .palette 115

/-- The style of what is not underlined. -/
def faded : Style := .palette 249

/-- The width of the column of the line number, without the blank on each side. -/
def numberWidth (e : Excerpt) : Nat :=
  (toString e.line).length

/-- Blanks. -/
def spaces (n : Nat) : String :=
  String.ofList (List.replicate n ' ')

/-- The left edge of a row. -/
def margin (e : Excerpt) : StyledText :=
  plain " " ++ styled edge (spaces (e.numberWidth + 1) ++ "│") ++ plain " "

/-- A row inside the frame. -/
def innerRow (e : Excerpt) (content : StyledText) : StyledText :=
  e.margin ++ content ++ plain "\n"

/-- The row above the frame that names the place. -/
def topRow (e : Excerpt) : StyledText :=
  plain (spaces (e.numberWidth + 2)) ++ styled frame "╭" ++ styled frame "─" ++ styled frame "["
    ++ plain s!"<unknown>:{e.line}:{e.start + 1}" ++ styled frame "]" ++ plain "\n"

/-- The empty row under the top of the frame. -/
def emptyRow (e : Excerpt) : StyledText :=
  plain (spaces (e.numberWidth + 2)) ++ styled frame "│" ++ plain "\n"

/-- The row of the line itself. What is not underlined is faded, cell by cell. -/
def shownRow (e : Excerpt) : StyledText :=
  plain " " ++ styled frame s!"{e.line} │" ++ plain " "
    ++ e.shown.zipIdx.flatMap (fun (c, i) => (e.shownAt c i).flatMap fun cell =>
      if e.covers i then plain cell.toString else styled faded cell.toString)
    ++ plain "\n"

/-- The rows of a help or a note: an empty one, and the text after its title. -/
def footerRows (e : Excerpt) (title text : String) : StyledText :=
  e.innerRow [] ++ e.innerRow (styled footer title ++ plain (": " ++ text))

/-- The bottom of the frame. -/
def bottomRow (e : Excerpt) : StyledText :=
  styled frame (String.ofList (List.replicate (e.numberWidth + 2) '─') ++ "╯") ++ plain "\n"

end Excerpt

namespace Snippet

open StyledText

/-- The rows of a snippet around the line that is shown. -/
def rows (s : Snippet) (e : Excerpt) : StyledText :=
  e.topRow ++ e.emptyRow ++ e.shownRow
    ++ e.innerRow (plain (e.draw e.underlineAt))
    ++ e.innerRow (plain (e.draw e.pointerAt ++ " " ++ s.label))
    ++ s.help.toList.flatMap (e.footerRows "Help")
    ++ s.note.toList.flatMap (e.footerRows "Note")
    ++ e.bottomRow

/-- A snippet as rows of text, the message alone if no line can be shown. -/
def layout (s : Snippet) : StyledText :=
  styled .red "Error:" ++ plain (" " ++ s.message ++ "\n") ++
    match Excerpt.ofSnippet? s with
    | some e => s.rows e
    | none => []

/-- A snippet as text. -/
def draw : Drawer := fun s colors =>
  s.layout.render colors

end Snippet

end LineCheck
