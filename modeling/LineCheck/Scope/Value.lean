import LineCheck.Scope

/-!
Values for variables: what an operand stands for, where a value of a given type
is needed.
-/

namespace LineCheck

/-- The value of a variable where a `target` is needed: the variable has to be
    assigned and of a type that `target` accepts. -/
def Variable.valueFor (v : Variable) (target : Ty) : Except Fault String :=
  match v.value with
  | none => .error (.unassignedVariable v.name)
  | some value =>
    if target.accepts v.ty then .ok value
    else .error (.incompatibleVariable v.name target v.ty)

/-- The value of a literal where a `target` is needed. -/
def Literal.valueFor (l : Literal) (target : Ty) : Except Fault String :=
  if target.acceptsLiteral l then .ok l.text else .error (.typeMismatch target l.text)

/-- The value that an operand stands for, where a `target` is needed. -/
def Scopes.valueFor (s : Scopes) (target : Ty) : Operand → Except Fault String
  | .literal l => l.valueFor target
  | .var name =>
    match s.find? name with
    | none => .error (.undefinedVariable name)
    | some v => v.valueFor target

end LineCheck
