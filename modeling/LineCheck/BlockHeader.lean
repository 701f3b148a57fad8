import LineCheck.Text.Blank

/-!
Block headers: the line that opens an `if` or a `while` block.

The header is read from the text of the line, and the condition is kept as text,
with the blanks it is written with.
-/

namespace LineCheck

/-- The kinds of blocks inside a method. -/
inductive BlockKind where
  | conditional
  | loop
deriving DecidableEq, Repr

/-- The word that opens a block. -/
def BlockKind.word : BlockKind → String
  | conditional => "if"
  | loop => "while"

/-- The line that opens a block. -/
structure BlockHeader where
  kind : BlockKind
  condition : String
deriving DecidableEq, Repr

namespace BlockHeader

/-- The block word at the start of a text, and what follows it. -/
def kind? (text : List Char) : Option (BlockKind × List Char) :=
  match BlockKind.conditional.word.toList.isPrefixOf? text with
  | some rest => some (.conditional, rest)
  | none => (BlockKind.loop.word.toList.isPrefixOf? text).map fun rest => (.loop, rest)

/-- The condition of a block, from what follows the block word: it stands
    between the parenthesis that comes next and the one that comes last before
    the brace. -/
def condition? (text : List Char) : Option (List Char) := do
  let opened ← ['('].isPrefixOf? (Text.trimStart text)
  let closed ← ['\x7b'].isSuffixOf? opened
  [')'].isSuffixOf? (Text.trimEnd closed)

/-- The block header that a text is, if it is one. -/
def ofText? (text : String) : Option BlockHeader := do
  let (kind, rest) ← kind? (Text.trim text.toList)
  let condition ← condition? rest
  return ⟨kind, String.ofList condition⟩

end BlockHeader

end LineCheck
