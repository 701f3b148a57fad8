import LineCheck.Statement
import LineCheck.Token.Scan

/-!
Reading statements and method headers from tokens and from text.

A comma list is cut at its commas and each piece is read on its own; a piece has
to be an item and nothing else, so a leading, trailing or doubled comma is
refused. The brackets and the semicolon around a list are taken off its ends
first.

* `commaList?_eq_some_iff`: if an item is read exactly from what it is written
  as, so is a list of at least one item.
-/

namespace LineCheck

/-! ## Comma lists -/

/-- At least one item, with a comma between each two. -/
def commaList? {α : Type} (item? : List Token → Option α) (ts : List Token) : Option (List α) :=
  (ts.splitOn (.symbol .comma)).mapM item?

/-- Items with a comma between each two, or none at all. -/
def commaListOrEmpty? {α : Type} (item? : List Token → Option α) (ts : List Token) :
    Option (List α) :=
  if ts = [] then some [] else commaList? item? ts

theorem mapM_eq_some_iff_eq_map {α β : Type} {read : β → Option α} {write : α → β}
    (h : ∀ b a, read b = some a ↔ b = write a) {bs : List β} {as : List α} :
    bs.mapM read = some as ↔ bs = as.map write := by
  induction bs generalizing as with
  | nil => cases as <;> simp
  | cons b bs ih => cases as <;> simp [h, ih, Option.bind_eq_some_iff]

theorem commaList?_eq_some_iff {α : Type} {item? : List Token → Option α}
    {write : α → List Token} (h : ∀ ts a, item? ts = some a ↔ ts = write a)
    (hcomma : ∀ a, .symbol .comma ∉ write a) {ts : List Token} {as : List α} :
    commaList? item? ts = some as ↔ as ≠ [] ∧ ts = commaJoin (as.map write) := by
  unfold commaList? commaJoin
  rw [mapM_eq_some_iff_eq_map h]
  constructor
  · intro hp
    refine ⟨fun has => List.splitOn_ne_nil (.symbol .comma) ts (by rw [hp, has]; rfl), ?_⟩
    rw [← hp, List.intercalate_splitOn]
  · rintro ⟨hne, rfl⟩
    refine List.splitOn_intercalate _ (fun l hl => ?_) (by simpa using hne)
    obtain ⟨a, -, rfl⟩ := List.mem_map.1 hl
    exact hcomma a

/-! ## Statements -/

/-- A name, or a name and the value it is given. -/
def Declarator.ofTokens? : List Token → Option Declarator
  | [.ident name] => some ⟨name, none⟩
  | [.ident name, .symbol .assign, value] =>
    (Operand.ofToken? value).map fun operand => ⟨name, some operand⟩
  | _ => none

/-- The rest of a declaration, from the type on. -/
def Declaration.ofTokens? (isFinal : Bool) : List Token → Option Declaration
  | .type ty :: ts => do
    let list ← [.symbol .semicolon].isSuffixOf? ts
    let items ← commaList? Declarator.ofTokens? list
    return ⟨isFinal, ty, items⟩
  | _ => none

/-- A single operand. -/
def Operand.ofTokens? : List Token → Option Operand
  | [t] => Operand.ofToken? t
  | _ => none

/-- The arguments of a call, with the closing parenthesis and the semicolon. -/
def Call.argsOfTokens? (ts : List Token) : Option (List Operand) := do
  let inner ← [.symbol .semicolon].isSuffixOf? ts
  let list ← [.symbol .closeParen].isSuffixOf? inner
  commaListOrEmpty? Operand.ofTokens? list

/-- The statement that a token sequence is, if it is one. -/
def Statement.ofTokens? : List Token → Option Statement
  | .keyword .finalWord :: ts => (Declaration.ofTokens? true ts).map declaration
  | .ident name :: .symbol .openParen :: ts =>
    (Call.argsOfTokens? ts).map fun args => call ⟨name, args⟩
  | [.ident name, .symbol .assign, value, .symbol .semicolon] =>
    (Operand.ofToken? value).map fun operand => assignment ⟨name, operand⟩
  | ts => (Declaration.ofTokens? false ts).map declaration

/-- The statement that a text is, if it is one. -/
def Statement.ofText? (text : String) : Option Statement := do
  Statement.ofTokens? (← tokenize text)

/-! ## Method headers -/

/-- The rest of a parameter, from the type on. -/
def Parameter.ofTypedTokens? (isFinal : Bool) : List Token → Option Parameter
  | .type ty :: ts => (Declarator.ofTokens? ts).map fun d => ⟨isFinal, ty, d.name, d.value⟩
  | _ => none

/-- A parameter. -/
def Parameter.ofTokens? : List Token → Option Parameter
  | .keyword .finalWord :: ts => Parameter.ofTypedTokens? true ts
  | ts => Parameter.ofTypedTokens? false ts

/-- Whether a name may be given to a method: it begins with a letter. -/
def MethodHeader.isMethodName (name : String) : Bool :=
  name.toList.head?.any Char.isAlpha

/-- The method header that a token sequence is, if it is one. -/
def MethodHeader.ofTokens? : List Token → Option MethodHeader
  | .keyword .voidWord :: .ident name :: .symbol .openParen :: ts => do
    let inner ← [.symbol .openBrace].isSuffixOf? ts
    let list ← [.symbol .closeParen].isSuffixOf? inner
    let params ← commaListOrEmpty? Parameter.ofTokens? list
    if isMethodName name then return ⟨name, params⟩ else none
  | _ => none

/-- The method header that a text is, if it is one. -/
def MethodHeader.ofText? (text : String) : Option MethodHeader := do
  MethodHeader.ofTokens? (← tokenize text)

end LineCheck
