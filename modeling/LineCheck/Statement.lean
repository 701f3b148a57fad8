import LineCheck.Token

/-!
Statements and method headers, and the tokens they are written with.

An operand is one token, so a statement has exactly one token sequence;
`Statement.tokens` and `MethodHeader.tokens` give it. Reading it back is
`LineCheck.Statement.Grammar`.
-/

namespace LineCheck

/-! ## Statements -/

/-- One variable of a declaration, with the value it starts with, if any. -/
structure Declarator where
  name : String
  value : Option Operand
deriving DecidableEq, Repr

/-- A declaration of variables of one type. -/
structure Declaration where
  isFinal : Bool
  ty : Ty
  items : List Declarator
deriving DecidableEq, Repr

/-- A new value for a variable. -/
structure Assignment where
  name : String
  value : Operand
deriving DecidableEq, Repr

/-- A call of a method. -/
structure Call where
  name : String
  args : List Operand
deriving DecidableEq, Repr

/-- A statement. -/
inductive Statement where
  | declaration (d : Declaration)
  | assignment (a : Assignment)
  | call (c : Call)
deriving DecidableEq, Repr

/-! ## Method headers -/

/-- A parameter as written. An initial value can be written, though no method
    may have one. -/
structure Parameter where
  isFinal : Bool
  ty : Ty
  name : String
  initial : Option Operand
deriving DecidableEq, Repr

/-- The first line of a method. -/
structure MethodHeader where
  name : String
  params : List Parameter
deriving DecidableEq, Repr

/-! ## Tokens -/

/-- Token sequences, with a comma between each two. -/
def commaJoin (parts : List (List Token)) : List Token :=
  [Token.symbol .comma].intercalate parts

/-- The word for a final variable, where there is one. -/
def finalTokens (isFinal : Bool) : List Token :=
  if isFinal then [.keyword .finalWord] else []

/-- A name, and the value it is given, if any. -/
def Declarator.tokens (d : Declarator) : List Token :=
  .ident d.name :: match d.value with
    | none => []
    | some value => [.symbol .assign, value.token]

/-- The tokens of a declaration. -/
def Declaration.tokens (d : Declaration) : List Token :=
  finalTokens d.isFinal ++ .type d.ty :: commaJoin (d.items.map Declarator.tokens)
    ++ [.symbol .semicolon]

/-- The tokens of an assignment. -/
def Assignment.tokens (a : Assignment) : List Token :=
  [.ident a.name, .symbol .assign, a.value.token, .symbol .semicolon]

/-- The tokens of a call. -/
def Call.tokens (c : Call) : List Token :=
  .ident c.name :: .symbol .openParen :: commaJoin (c.args.map fun arg => [arg.token])
    ++ [.symbol .closeParen, .symbol .semicolon]

/-- The tokens of a statement. -/
def Statement.tokens : Statement → List Token
  | declaration d => d.tokens
  | assignment a => a.tokens
  | call c => c.tokens

/-- The tokens of a parameter. -/
def Parameter.tokens (p : Parameter) : List Token :=
  finalTokens p.isFinal ++ .type p.ty :: Declarator.tokens ⟨p.name, p.initial⟩

/-- The tokens of a method header. -/
def MethodHeader.tokens (m : MethodHeader) : List Token :=
  .keyword .voidWord :: .ident m.name :: .symbol .openParen
    :: commaJoin (m.params.map Parameter.tokens) ++ [.symbol .closeParen, .symbol .openBrace]

end LineCheck
