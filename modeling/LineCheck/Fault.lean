import LineCheck.Ty

/-!
Faults: what can be wrong with a program.

A `Fault` is a cause with the names and texts it speaks of, without a place; a
`Violation` is a fault at a line. The wording of a fault stands in
`Fault.message` alone.
-/

namespace LineCheck

/-- The kinds of rules a fault may break. -/
inductive FaultCategory where
  | structural
  | declaration
  | typing
  | condition
  | method
deriving DecidableEq, Repr

/-- What is wrong. -/
inductive Fault where
  /-- The line is of no kind. -/
  | illegalLine
  /-- A closing brace too many, or too few. -/
  | unbalancedBraces
  | returnOutsideMethod
  /-- The last line of the method with an effect, before its closing brace, is
      not a return. -/
  | missingReturn (method : String)
  /-- A statement outside all methods is not a declaration. -/
  | illegalGlobalStatement
  | illegalStatement
  | illegalBlock
  | undeclaredAssignment (name : String)
  | duplicateVariable (name : String)
  | uninitializedFinal (name : String)
  | parameterWithInitializer (name : String)
  /-- The literal written `found` is no value of the type `expected`. -/
  | typeMismatch (expected : Ty) (found : String)
  /-- The variable `name` of type `found` is used where an `expected` is needed. -/
  | incompatibleVariable (name : String) (expected found : Ty)
  | finalReassignment (name : String)
  | undefinedVariable (name : String)
  | unassignedVariable (name : String)
  /-- The condition begins or ends with an operator. -/
  | danglingOperator (condition : String)
  /-- Two operators of the condition have nothing between them. -/
  | consecutiveOperators (condition : String)
  /-- A part of a condition is not a truth value. -/
  | notBooleanCondition (term : String)
  | duplicateMethod (name : String)
  | malformedMethod
  | undefinedMethod (name : String)
  | argumentCount (name : String) (expected found : Nat)
  /-- The argument written `found`, at `position` counted from one, is no value
      of the parameter. -/
  | argumentType (name : String) (position : Nat) (expected : Ty) (found : String)
deriving DecidableEq, Repr

namespace Fault

/-- The kind of rule that a fault breaks. -/
def category : Fault → FaultCategory
  | illegalLine | unbalancedBraces | returnOutsideMethod | missingReturn _
  | illegalGlobalStatement | illegalStatement | illegalBlock | undeclaredAssignment _ => .structural
  | duplicateVariable _ | uninitializedFinal _ | parameterWithInitializer _ => .declaration
  | typeMismatch _ _ | incompatibleVariable _ _ _ | finalReassignment _ | undefinedVariable _
  | unassignedVariable _ => .typing
  | danglingOperator _ | consecutiveOperators _ | notBooleanCondition _ => .condition
  | duplicateMethod _ | malformedMethod | undefinedMethod _ | argumentCount _ _ _
  | argumentType _ _ _ _ => .method

/-- The wording of a fault. -/
def message : Fault → String
  | illegalLine => "illegal line"
  | unbalancedBraces => "unbalanced braces"
  | returnOutsideMethod => "'return' outside of a method"
  | missingReturn method => s!"method '{method}' does not end with 'return;'"
  | illegalGlobalStatement => "only variable declarations are allowed in the global scope"
  | illegalStatement => "illegal statement"
  | illegalBlock => "illegal block: expected 'if (...) \x7b' or 'while (...) \x7b'"
  | undeclaredAssignment name => s!"cannot assign to undeclared variable '{name}'"
  | duplicateVariable name => s!"variable '{name}' is already declared in this scope"
  | uninitializedFinal name => s!"final variable '{name}' is never initialized"
  | parameterWithInitializer name => s!"parameter '{name}' cannot have an initial value"
  | typeMismatch expected found =>
    s!"type mismatch: '{found}' is not a valid {expected.name} value"
  | incompatibleVariable name expected found =>
    s!"type mismatch: cannot use {found.name} variable '{name}' as {expected.name}"
  | finalReassignment name => s!"cannot assign a new value to final variable '{name}'"
  | undefinedVariable name => s!"undefined variable '{name}'"
  | unassignedVariable name => s!"variable '{name}' is used before it is assigned"
  | danglingOperator condition => s!"condition '{condition}' starts or ends with an operator"
  | consecutiveOperators condition => s!"condition '{condition}' has two consecutive operators"
  | notBooleanCondition term => s!"'{term}' is not a boolean condition"
  | duplicateMethod name => s!"method '{name}' is already declared"
  | malformedMethod => "malformed method declaration"
  | undefinedMethod name => s!"undefined method '{name}'"
  | argumentCount name expected found =>
    s!"method '{name}' expects {expected} arguments, but got {found}"
  | argumentType name position expected found =>
    s!"argument {position} of '{name}' is not a valid {expected.name} value: '{found}'"

/-- A fault of a value, seen as a fault of the argument of `method` at
    `position`: a value of a wrong type becomes an argument of a wrong type, and
    other faults stay. -/
def inArgument (method : String) (position : Nat) : Fault → Fault
  | typeMismatch expected found => argumentType method position expected found
  | incompatibleVariable name expected _ => argumentType method position expected name
  | fault => fault

end Fault

/-- A fault at a line, counted from one. -/
structure Violation where
  line : Nat
  fault : Fault
deriving DecidableEq, Repr

/-- The wording of a violation. -/
def Violation.message (v : Violation) : String :=
  s!"line {v.line}: {v.fault.message}"

end LineCheck
