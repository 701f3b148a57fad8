/-!
The lines of a source text, and where each line stands in it.

A newline ends a line, and one carriage return before it belongs to the line
end. `lines` are the texts of the lines; a text that ends with a newline has no
empty line after it. `lineSpan?` gives the bytes of a line by its number; there
the run after a final newline counts, as an empty line.
-/

namespace LineCheck.Text

/-- The number of bytes of a text in UTF-8. -/
def byteSize : List Char → Nat
  | [] => 0
  | c :: text => c.utf8Size + byteSize text

/-- A run of text without one carriage return at its end. -/
def dropReturn (run : List Char) : List Char :=
  (['\r'].isSuffixOf? run).getD run

/-! ## Lines -/

/-- The lines among the runs between newlines: every run but the last was ended
    by a newline, and an empty last run is no line. -/
def linesOfRuns : List (List Char) → List (List Char)
  | [] => []
  | [last] => if last = [] then [] else [last]
  | run :: next :: runs => dropReturn run :: linesOfRuns (next :: runs)

/-- The lines of a source text. -/
def lines (source : String) : List String :=
  (linesOfRuns (source.toList.splitOn '\n')).map String.ofList

/-! ## Spans -/

/-- A stretch of a text: the byte offsets of its start and of the position after
    it. -/
structure Span where
  start : Nat
  stop : Nat
deriving DecidableEq, Repr

/-- The span of the run with index `k`, where the first run starts at byte
    `start` and each newline between two runs takes one byte. -/
def spanOfRun (start : Nat) : List (List Char) → Nat → Option Span
  | [], _ => none
  | run :: _, 0 => some ⟨start, start + byteSize (dropReturn run)⟩
  | run :: runs, k + 1 => spanOfRun (start + byteSize run + 1) runs k

/-- The span of the line with number `line`, counted from one, without its line
    end. -/
def lineSpan? (source : String) : Nat → Option Span
  | 0 => none
  | k + 1 => spanOfRun 0 (source.toList.splitOn '\n') k

end LineCheck.Text
