import LineCheck.Proofs.Checking

/-!
Programs as trees, and a checker that follows the tree.

A line stands in a tree together with the kind that its place requires, so every
tree can be written out as lines (`Program.lines`). `Program.check` first admits
what is global, in the order of the file, and then checks the bodies of the
methods; a block is checked where it stands, in a scope of its own.
-/

namespace LineCheck

/-! ## Trees -/

/-- A text that is a line of one of these kinds. -/
structure TextOf (kinds : List LineKind) where
  text : String
  kind : LineKind
  mem_kinds : kind ∈ kinds
  ofText?_text : LineKind.ofText? text = some kind

/-- What stands between the header of a method or block and its closing brace:
    item after item. -/
inductive Body where
  | nil
  | trivia (line : TextOf [.comment, .blank]) (rest : Body)
  | returnLine (line : TextOf [.returnLine]) (rest : Body)
  | statement (line : TextOf [.statement]) (rest : Body)
  | block (header : TextOf [.blockOpen]) (body : Body) (close : TextOf [.blockClose]) (rest : Body)

/-- A part of a program outside all methods, or a method. -/
inductive Part where
  | trivia (line : TextOf [.comment, .blank])
  | declaration (line : TextOf [.statement])
  | method (header : TextOf [.blockOpen]) (body : Body) (close : TextOf [.blockClose])

/-- A program: its parts in order. -/
abbrev Program := List Part

namespace Body

/-- The lines of a body. -/
def lines : Body → List String
  | nil => []
  | trivia line rest => line.text :: rest.lines
  | returnLine line rest => line.text :: rest.lines
  | statement line rest => line.text :: rest.lines
  | block header body close rest => header.text :: body.lines ++ close.text :: rest.lines

/-- The number of lines of a body. -/
def size (b : Body) : Nat :=
  b.lines.length

/-- Whether a body has no items but trivia. -/
def isTrivia : Body → Bool
  | nil => true
  | trivia _ rest => rest.isTrivia
  | _ => false

/-- Whether the last item of a body, trivia apart, is a return. -/
def endsInReturn : Body → Bool
  | nil => false
  | returnLine _ rest => rest.isTrivia || rest.endsInReturn
  | trivia _ rest | statement _ rest | block _ _ _ rest => rest.endsInReturn

end Body

/-- The lines of a part. -/
def Part.lines : Part → List String
  | trivia line | declaration line => [line.text]
  | method header body close => header.text :: body.lines ++ [close.text]

namespace Program

/-- The lines of a program. -/
def lines (p : Program) : List String :=
  p.flatMap Part.lines

/-- The bodies of the methods, in order. -/
def bodies : Program → List Body
  | [] => []
  | .trivia _ :: parts | .declaration _ :: parts => bodies parts
  | .method _ body _ :: parts => body :: bodies parts

end Program

/-! ## Checking a tree -/

/-- Work in a new scope, which is closed after it. -/
def inScope (kind : ScopeKind) (work : Checking Unit) : Checking Unit := do
  modify (·.enter kind)
  work
  modify Scopes.leave

theorem inScope_eq_ok_iff {kind : ScopeKind} {work : Checking Unit} {s s' : Scopes} {u : Unit} :
    inScope kind work s = .ok u s' ↔ ∃ t, work (s.enter kind) = .ok () t ∧ s' = t.leave := by
  unfold inScope
  simp only [bind_eq_ok_iff, modify_apply]
  constructor
  · rintro ⟨a, s₁, hs₁, b, t, ht, heq⟩
    cases hs₁
    cases heq
    exact ⟨t, ht, rfl⟩
  · rintro ⟨t, ht, rfl⟩
    exact ⟨(), _, rfl, (), t, ht, rfl⟩

theorem inScope_eq_error_iff {kind : ScopeKind} {work : Checking Unit} {s s' : Scopes}
    {v : Violation} :
    inScope kind work s = .error v s' ↔ work (s.enter kind) = .error v s' := by
  unfold inScope
  simp only [bind_eq_error_iff, modify_apply]
  constructor
  · rintro (h | ⟨a, s₁, hs₁, h | ⟨b, t, -, h⟩⟩)
    · cases h
    · cases hs₁
      exact h
    · cases h
  · intro h
    exact .inr ⟨(), _, rfl, .inl h⟩

/-- A statement inside a method, at a line. -/
def statementAt (methods : MethodTable) (line : Nat) (text : String) : Checking Unit :=
  match Statement.ofText? text with
  | none => .fail line .illegalStatement
  | some statement => (resolve methods statement).atLine line

/-- The header of a block, at a line: its condition is checked where the block
    stands. -/
def headerAt (line : Nat) (text : String) : Checking Unit :=
  match BlockHeader.ofText? text with
  | none => .fail line .illegalBlock
  | some header => (Resolving.require (Condition.check header.condition)).atLine line

/-- Checks a body that stands after `count` lines, item after item. -/
def Body.check (methods : MethodTable) : Nat → Body → Checking Unit
  | _, nil => return
  | count, trivia _ rest | count, returnLine _ rest => rest.check methods (count + 1)
  | count, statement line rest => do
    statementAt methods (count + 1) line.text
    rest.check methods (count + 1)
  | count, block header body _ rest => do
    headerAt (count + 1) header.text
    inScope .block (body.check methods (count + 1))
    rest.check methods (count + body.size + 2)

/-- The body of a method has to end in a return. A missing one is missing at the
    closing brace. -/
def Body.checkReturn (m : Method) (b : Body) : Checking Unit :=
  if b.endsInReturn then return else .fail (m.line + b.size + 1) (.missingReturn m.name)

/-- Checks the body of a method in a scope that holds the parameters. -/
def Body.checkMethod (methods : MethodTable) (m : Method) (b : Body) : Checking Unit :=
  inScope .method do
    receive m.line m.params
    b.check methods m.line
    b.checkReturn m

/-- Checks the bodies of methods, one after the other. -/
def checkBodies (methods : MethodTable) : List (Method × Body) → Checking Unit
  | [] => return
  | (m, body) :: rest => do
    body.checkMethod methods m
    checkBodies methods rest

namespace Program

/-- Declares the global variables and registers the methods of a program that
    stands after `count` lines, in order. -/
def introduce : Nat → MethodTable → Program → Checking MethodTable
  | _, methods, [] => return methods
  | count, methods, .trivia _ :: parts => introduce (count + 1) methods parts
  | count, methods, .declaration line :: parts => do
    globalStatement (count + 1) line.text
    introduce (count + 1) methods parts
  | count, methods, .method header body _ :: parts => do
    let methods' ← globalBlock (count + 1) header.text methods
    introduce (count + body.size + 2) methods' parts

/-- Checks a program: what is global, then the bodies. -/
def check (p : Program) : Checking Summary := do
  let methods ← p.introduce 0 .empty
  checkBodies methods (methods.toList.zip p.bodies)
  let scopes ← get
  return ⟨p.lines.length, methods.size, scopes.global.vars.length⟩

/-- The verdict on a program. -/
def verdict (p : Program) : Except Violation Summary :=
  match p.check .initial with
  | .ok summary _ => .ok summary
  | .error violation _ => .error violation

end Program

end LineCheck
