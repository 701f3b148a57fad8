import LineCheck.Method
import LineCheck.Scope.Update

/-!
The effect of statements on the open scopes.
-/

namespace LineCheck

/-- Carries out a statement: a declaration or an assignment changes the scopes,
    a call is checked and changes nothing. -/
def resolve (methods : MethodTable) : Statement → Resolving Unit
  | .declaration d => discard (declare d)
  | .assignment a => assign a
  | .call c => .require (methods.checkCall c)

end LineCheck
