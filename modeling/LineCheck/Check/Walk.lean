import LineCheck.BlockHeader
import LineCheck.Check.Survey
import LineCheck.Condition

/-!
The walk: the second pass, through the body of each method.

A walk starts after the header of a method, in a new scope that holds the
parameters, and ends with the brace that closes the method. It counts the blocks
that are open, the method included (`nesting`), and remembers whether a return
was met at the level of the method with nothing after it (`returned`): the
closing brace needs one.
-/

namespace LineCheck

/-- A statement inside a method. -/
def checkStatement (methods : MethodTable) (line : Line) : Checking Unit :=
  match Statement.ofText? line.text with
  | none => .fail line.number .illegalStatement
  | some statement => (resolve methods statement).atLine line.number

/-- A block that opens inside a method. -/
def checkBlock (line : Line) : Checking Unit :=
  match BlockHeader.ofText? line.text with
  | none => .fail line.number .illegalBlock
  | some header => do
    (Resolving.require (Condition.check header.condition)).atLine line.number
    modify (·.enter .block)

/-- Walks through the lines that follow, up to the brace that closes the method. -/
def walk (methods : MethodTable) (method : String) : List Line → Nat → Bool → Checking Unit
  | [], _, _ => return
  | line :: lines, nesting, returned =>
    match line.kind with
    | .comment | .blank => walk methods method lines nesting returned
    | .returnLine => walk methods method lines nesting (returned || line.depth == 1)
    | .statement => do
      checkStatement methods line
      walk methods method lines nesting false
    | .blockOpen => do
      checkBlock line
      walk methods method lines (nesting + 1) false
    | .blockClose =>
      if nesting = 1 ∧ returned = false then .fail line.number (.missingReturn method)
      else do
        modify Scopes.leave
        if nesting = 1 then return else walk methods method lines (nesting - 1) returned

/-- Declares the parameters of a method, as variables that have a value. -/
def receive (line : Nat) : List Variable → Checking Unit
  | [] => return
  | param :: params => do
    (Resolving.update (·.define param.received)).atLine line
    receive line params

/-- Walks through a method of a program. -/
def walkMethod (found : Survey) (m : Method) : Checking Unit := do
  modify (·.enter .method)
  receive m.line m.params
  walk found.methods m.name (found.lines.drop m.line) 1 false

/-- Walks through methods of a program, one after the other. -/
def walkMethods (found : Survey) : List Method → Checking Unit
  | [] => return
  | m :: ms => do
    walkMethod found m
    walkMethods found ms

end LineCheck
