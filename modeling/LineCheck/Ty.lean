/-!
Value types, literals and operands, and which values a variable of a type may
take.

One relation decides both for literals and for variables:
`Ty.accepts target source`. A literal has a type of its own (`Literal.ty`) and
is acceptable where a variable of that type would be.
-/

namespace LineCheck

/-! ## Types -/

/-- The types of variables and parameters. -/
inductive Ty where
  | int
  | double
  | string
  | char
  | boolean
deriving DecidableEq, Repr

namespace Ty

/-- The name of a type in source text. -/
def name : Ty → String
  | int => "int"
  | double => "double"
  | string => "String"
  | char => "char"
  | boolean => "boolean"

/-- All types. -/
def all : List Ty := [int, double, string, char, boolean]

/-- Whether the values of a type are numbers. -/
def isNumeric : Ty → Bool
  | int | double => true
  | _ => false

/-- Whether a variable of this type may stand in a condition. -/
def isCondition : Ty → Bool
  | int | double | boolean => true
  | _ => false

/-- Whether variables of a type take numbers of every type. -/
def isWide : Ty → Bool
  | double | boolean => true
  | _ => false

/-- Whether a value of type `source` may be stored in a variable of type
    `target`: the types are equal, or a number is widened. -/
def accepts (target source : Ty) : Bool :=
  target == source || (target.isWide && source.isNumeric)

end Ty

/-! ## Literals and operands -/

/-- A literal, with its source text where the text is not determined by the
    value. Texts keep their quotes. -/
inductive Literal where
  | int (text : String)
  | double (text : String)
  | char (text : String)
  | str (text : String)
  | bool (value : Bool)
deriving DecidableEq, Repr

namespace Literal

/-- The source text of a literal. -/
def text : Literal → String
  | int text | double text | char text | str text => text
  | bool true => "true"
  | bool false => "false"

/-- The type of a literal. -/
def ty : Literal → Ty
  | int _ => .int
  | double _ => .double
  | char _ => .char
  | str _ => .string
  | bool _ => .boolean

/-- Whether a literal is a number. -/
def isNumeric (l : Literal) : Bool :=
  l.ty.isNumeric

end Literal

/-- Whether a literal may be stored in a variable of type `target`. -/
def Ty.acceptsLiteral (target : Ty) (l : Literal) : Bool :=
  target.accepts l.ty

/-- What stands for a value: a variable by its name, or a literal. -/
inductive Operand where
  | var (name : String)
  | literal (l : Literal)
deriving DecidableEq, Repr

/-- The source text of an operand. -/
def Operand.text : Operand → String
  | var name => name
  | literal l => l.text

end LineCheck
