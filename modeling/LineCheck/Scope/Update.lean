import LineCheck.Scope.Value
import LineCheck.Statement

/-!
Declarations and assignments.

A declaration adds its variables one by one and stops at the first fault; the
variables before it stay declared. So the open scopes are kept also where there
is a fault: `Resolving` is the state monad in which a failure keeps the state.
Each single step (`Scopes.declareItem`, `Scopes.assign`) either succeeds or
leaves the scopes as they were.
-/

namespace LineCheck

/-- Work on the open scopes that may stop at a fault, and then leaves the scopes
    it reached. -/
abbrev Resolving (α : Type) := EStateM Fault Scopes α

namespace Resolving

/-- A step that changes the scopes, or stops and leaves them as they were. -/
def update (step : Scopes → Except Fault Scopes) : Resolving Unit := fun s =>
  match step s with
  | .ok s' => .ok () s'
  | .error fault => .error fault s

/-- A test of the scopes. -/
def require (test : Scopes → Except Fault Unit) : Resolving Unit := fun s =>
  match test s with
  | .ok () => .ok () s
  | .error fault => .error fault s

theorem update_of_ok {step : Scopes → Except Fault Scopes} {s s' : Scopes}
    (h : step s = .ok s') : update step s = .ok () s' := by
  rw [update, h]

theorem update_of_error {step : Scopes → Except Fault Scopes} {s : Scopes} {fault : Fault}
    (h : step s = .error fault) : update step s = .error fault s := by
  rw [update, h]

end Resolving

/-! ## Declarations -/

namespace Scopes

/-- The value that a declared variable starts with. A final variable needs one. -/
def initialValue (s : Scopes) (isFinal : Bool) (ty : Ty) (d : Declarator) :
    Except Fault (Option String) :=
  match d.value with
  | some operand => (s.valueFor ty operand).map some
  | none => if isFinal then .error (.uninitializedFinal d.name) else .ok none

/-- Declares one variable in the current scope. -/
def declareItem (isFinal : Bool) (ty : Ty) (d : Declarator) (s : Scopes) : Except Fault Scopes :=
  if (s.current.get? d.name).isSome then .error (.duplicateVariable d.name)
  else (s.initialValue isFinal ty d).map fun value => s.push ⟨d.name, ty, value, isFinal⟩

end Scopes

/-- Declares variables in the current scope, in order. -/
def declareItems (isFinal : Bool) (ty : Ty) : List Declarator → Resolving Unit
  | [] => return
  | d :: ds => do
    .update (Scopes.declareItem isFinal ty d)
    declareItems isFinal ty ds

/-- Declares the variables of a declaration in the current scope, and counts them. -/
def declare (d : Declaration) : Resolving Nat := do
  declareItems d.isFinal d.ty d.items
  return d.items.length

/-! ## Assignments -/

/-- Gives a new value to the variable that the name means, in the scope that has
    it. -/
def Scopes.assign (a : Assignment) (s : Scopes) : Except Fault Scopes :=
  match s.locate? a.name with
  | none => .error (.undeclaredAssignment a.name)
  | some (id, v) =>
    if v.isFinal then .error (.finalReassignment a.name)
    else (s.valueFor v.ty a.value).map fun value => (s.set? id a.name value).getD s

/-- Carries out an assignment. -/
def assign (a : Assignment) : Resolving Unit :=
  .update (Scopes.assign a)

end LineCheck
