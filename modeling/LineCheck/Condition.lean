import LineCheck.Scope
import LineCheck.Text.Blank
import LineCheck.Token.Scan

/-!
Conditions of blocks.

A condition is text: terms joined by `||` and `&&`, where `&&` binds closer. A
term is one token, a truth value, a number or a variable that can stand for one.
The operators are found in the text before the terms are read, so they count
also inside a quoted literal.
-/

namespace LineCheck.Condition

/-- The runs of a text between the operators that are `c` written twice, found
    from the left. -/
def splitAtDouble (c : Char) : List Char → List (List Char)
  | [] => [[]]
  | [a] => [[a]]
  | a :: b :: text =>
    if a = c ∧ b = c then [] :: splitAtDouble c text
    else (splitAtDouble c (b :: text)).modifyHead (a :: ·)

/-- Whether a text begins or ends with an operator, blanks apart. -/
def isDangling (text : List Char) : Bool :=
  [Symbol.or, Symbol.and].any fun s =>
    s.text.toList.isPrefixOf (Text.trim text) || s.text.toList.isSuffixOf (Text.trim text)

/-- Whether a text is a term: a literal of a type that conditions take, or a
    name for which some open scope has an assigned variable of such a type. -/
def isTerm (s : Scopes) (text : List Char) : Bool :=
  match Token.scan text with
  | some [.literal l] => l.ty.isCondition
  | some [.ident name] => (s.findAll name).any fun v => v.isAssigned && v.ty.isCondition
  | _ => false

/-- Checks the terms of a run between two `||`. -/
def checkTerms (s : Scopes) : List (List Char) → Except Fault Unit
  | [] => .ok ()
  | piece :: pieces =>
    if isTerm s (Text.trim piece) then checkTerms s pieces
    else .error (.notBooleanCondition (String.ofList (Text.trim piece)))

/-- Checks the runs between the `||` of the condition `whole`. -/
def checkRuns (s : Scopes) (whole : List Char) : List (List Char) → Except Fault Unit
  | [] => .ok ()
  | run :: runs =>
    if isDangling run then .error (.consecutiveOperators (String.ofList (Text.trim whole)))
    else match checkTerms s (splitAtDouble '&' run) with
      | .error fault => .error fault
      | .ok () => checkRuns s whole runs

/-- Checks a condition. -/
def check (condition : String) (s : Scopes) : Except Fault Unit :=
  if isDangling condition.toList then
    .error (.danglingOperator (String.ofList (Text.trim condition.toList)))
  else checkRuns s condition.toList (splitAtDouble '|' condition.toList)

end LineCheck.Condition
