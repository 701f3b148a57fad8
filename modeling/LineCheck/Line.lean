import LineCheck.Text.Blank

/-!
Lines and their kinds.

The kind of a line is told from its outer form, from how it begins and ends;
whether the line is a statement or a header that can be read is decided later.
-/

namespace LineCheck

/-- What a line is, by its outer form. -/
inductive LineKind where
  | comment
  | blank
  | returnLine
  | blockClose
  | blockOpen
  | statement
deriving DecidableEq, Repr

/-- A line of a program: its number, counted from one, its text, how many blocks
    are open before it, and its kind. -/
structure Line where
  number : Nat
  text : String
  depth : Nat
  kind : LineKind
deriving DecidableEq, Repr

namespace LineKind

/-- Whether a trimmed text is the word `return` and a semicolon, with blanks
    between them or none. -/
def isBareReturn (trimmed : List Char) : Bool :=
  match "return".toList.isPrefixOf? trimmed with
  | some rest => Text.trimStart rest == [';']
  | none => false

/-- The kind of a line with these characters. Only a comment has to begin in the
    first column. A semicolon with nothing before it is no statement. -/
def ofChars? (text : List Char) : Option LineKind :=
  if "//".toList.isPrefixOf text then some comment
  else if Text.trim text = [] then some blank
  else if isBareReturn (Text.trim text) then some returnLine
  else if Text.trim text = ['\x7d'] then some blockClose
  else if (Text.trim text).getLast? = some '\x7b' then some blockOpen
  else if (Text.trim text).getLast? = some ';' ∧ 1 < (Text.trimEnd text).length then some statement
  else none

/-- The kind of a line, if it has one. -/
def ofText? (text : String) : Option LineKind :=
  ofChars? text.toList

end LineKind

end LineCheck
