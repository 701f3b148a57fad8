import LineCheck.Scope.Value
import LineCheck.Statement

/-!
Methods and the table that holds them.

Methods are kept in the order of their registration, and a name is registered
once. A call is checked against the parameters: as many arguments as parameters,
and each argument a value of its parameter.
-/

namespace LineCheck

/-- A method: its name, its parameters as unassigned variables, and the line of
    its header. -/
structure Method where
  name : String
  params : List Variable
  line : Nat
deriving DecidableEq, Repr

/-- The variable that a parameter declares. -/
def Parameter.toVariable (p : Parameter) : Variable :=
  ⟨p.name, p.ty, none, p.isFinal⟩

/-- The variables of a parameter list, where the names in `taken` are used
    already. Names have to be different, and no parameter may have an initial
    value. -/
def Parameter.toVariables (taken : List String) : List Parameter → Except Fault (List Variable)
  | [] => .ok []
  | p :: ps =>
    if p.name ∈ taken then .error (.duplicateVariable p.name)
    else if p.initial.isSome then .error (.parameterWithInitializer p.name)
    else (Parameter.toVariables (p.name :: taken) ps).map (p.toVariable :: ·)

/-- The method with this header, which stands at `line`. -/
def Method.ofHeader (header : MethodHeader) (line : Nat) : Except Fault Method :=
  (Parameter.toVariables [] header.params).map fun params => ⟨header.name, params, line⟩

/-- The methods of a program, in the order of their registration. -/
structure MethodTable where
  toList : List Method
deriving DecidableEq, Repr

namespace MethodTable

/-- The table without methods. -/
def empty : MethodTable :=
  ⟨[]⟩

/-- The number of methods. -/
def size (t : MethodTable) : Nat :=
  t.toList.length

/-- The method with this name. -/
def get? (t : MethodTable) (name : String) : Option Method :=
  t.toList.find? (·.name == name)

/-- Adds a method after the others. -/
def push (t : MethodTable) (m : Method) : MethodTable :=
  ⟨t.toList ++ [m]⟩

/-- Adds the method with this header, which stands at `line`, if its name is new. -/
def register (t : MethodTable) (header : MethodHeader) (line : Nat) : Except Fault MethodTable :=
  if (t.get? header.name).isSome then .error (.duplicateMethod header.name)
  else (Method.ofHeader header line).map t.push

/-- Checks arguments against parameters, the first of which is at `position`. -/
def checkArgs (s : Scopes) (method : String) :
    Nat → List Variable → List Operand → Except Fault Unit
  | position, param :: params, arg :: args =>
    match s.valueFor param.ty arg with
    | .error fault => .error (fault.inArgument method position)
    | .ok _ => checkArgs s method (position + 1) params args
  | _, _, _ => .ok ()

/-- Checks a call. -/
def checkCall (t : MethodTable) (c : Call) (s : Scopes) : Except Fault Unit :=
  match t.get? c.name with
  | none => .error (.undefinedMethod c.name)
  | some m =>
    if m.params.length = c.args.length then checkArgs s m.name 1 m.params c.args
    else .error (.argumentCount c.name m.params.length c.args.length)

end MethodTable

end LineCheck
