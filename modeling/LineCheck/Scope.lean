import LineCheck.Fault

/-!
Variables and the scopes that hold them.

The open scopes of a program point, `Scopes`, are never none: there is a current
scope, and there are the scopes around it, the outermost of which is the global
one. `Scopes.toList` lists them from the inside to the outside, and every search
for a name is a search through that list. A scope is known by its number, which
counts the scopes around it, so the global scope is number zero.
-/

namespace LineCheck

/-! ## Variables -/

/-- A variable. Its value is kept as text; a variable without one is unassigned. -/
structure Variable where
  name : String
  ty : Ty
  value : Option String
  isFinal : Bool
deriving DecidableEq, Repr

namespace Variable

/-- Whether a variable has a value. -/
def isAssigned (v : Variable) : Bool :=
  v.value.isSome

/-- A parameter inside its method: it counts as assigned, though its value is
    not known. -/
def received (v : Variable) : Variable :=
  { v with value := some "" }

end Variable

/-! ## Scopes -/

/-- What a scope belongs to. -/
inductive ScopeKind where
  | global
  | method
  | block
deriving DecidableEq, Repr

/-- The variables of one scope, in the order of their declarations. -/
structure Scope where
  kind : ScopeKind
  vars : List Variable
deriving DecidableEq, Repr

namespace Scope

/-- A scope without variables. -/
def empty (kind : ScopeKind) : Scope :=
  ⟨kind, []⟩

/-- The variable with this name. -/
def get? (s : Scope) (name : String) : Option Variable :=
  s.vars.find? (·.name == name)

/-- Adds a variable after the others. -/
def push (s : Scope) (v : Variable) : Scope :=
  { s with vars := s.vars ++ [v] }

/-- Gives the first variable with this name a new value, if there is one. -/
def setValue? (name value : String) : List Variable → Option (List Variable)
  | [] => none
  | v :: vs =>
    if v.name = name then some ({ v with value := some value } :: vs)
    else (setValue? name value vs).map (v :: ·)

/-- The scope with a new value for the variable of this name, if there is one. -/
def set? (s : Scope) (name value : String) : Option Scope :=
  (setValue? name value s.vars).map fun vars => { s with vars }

@[simp]
theorem get?_empty (kind : ScopeKind) (name : String) : (empty kind).get? name = none :=
  rfl

theorem get?_push (s : Scope) (v : Variable) (name : String) :
    (s.push v).get? name = (s.get? name).or (if v.name = name then some v else none) := by
  by_cases h : v.name = name <;> simp [get?, push, h]

end Scope

/-! ## Open scopes -/

/-- The scopes that are open at a point of a program: the innermost one, and
    those around it from the inside to the outside. -/
structure Scopes where
  current : Scope
  outer : List Scope
deriving DecidableEq, Repr

namespace Scopes

/-- An empty global scope and nothing else. -/
def initial : Scopes :=
  ⟨.empty .global, []⟩

/-- All scopes, from the innermost to the global one. -/
def toList (s : Scopes) : List Scope :=
  s.current :: s.outer

/-- The number of the current scope. -/
def currentId (s : Scopes) : Nat :=
  s.outer.length

/-- The outermost scope. -/
def global (s : Scopes) : Scope :=
  s.toList.getLast (List.cons_ne_nil _ _)

/-- Opens a new scope inside the current one. -/
def enter (s : Scopes) (kind : ScopeKind) : Scopes :=
  ⟨.empty kind, s.toList⟩

/-- Closes the current scope. The global scope stays open. -/
def leave (s : Scopes) : Scopes :=
  match s.outer with
  | [] => s
  | scope :: outer => ⟨scope, outer⟩

@[simp]
theorem toList_enter (s : Scopes) (kind : ScopeKind) :
    (s.enter kind).toList = .empty kind :: s.toList :=
  rfl

@[simp]
theorem leave_enter (s : Scopes) (kind : ScopeKind) : (s.enter kind).leave = s :=
  rfl

/-! ### Searching -/

/-- The variable that a name means: the one of the innermost scope that has it. -/
def find? (s : Scopes) (name : String) : Option Variable :=
  s.toList.findSome? (·.get? name)

/-- The variables of this name, one for each scope that has it, from the inside
    to the outside. -/
def findAll (s : Scopes) (name : String) : List Variable :=
  s.toList.filterMap (·.get? name)

/-- The first of some scopes, given from the inside to the outside, that has a
    variable of this name: its number and the variable. -/
def locateIn? (name : String) : List Scope → Option (Nat × Variable)
  | [] => none
  | scope :: outer =>
    match scope.get? name with
    | some v => some (outer.length, v)
    | none => locateIn? name outer

/-- The variable that a name means, with the number of its scope. -/
def locate? (s : Scopes) (name : String) : Option (Nat × Variable) :=
  locateIn? name s.toList

theorem find?_eq_head?_findAll (s : Scopes) (name : String) :
    s.find? name = (s.findAll name).head? := by
  simp [find?, findAll, List.head?_filterMap]

theorem map_snd_locateIn? (name : String) (scopes : List Scope) :
    (locateIn? name scopes).map Prod.snd = scopes.findSome? (·.get? name) := by
  induction scopes with
  | nil => rfl
  | cons scope outer ih =>
    rw [locateIn?, List.findSome?_cons]
    cases scope.get? name with
    | none => exact ih
    | some v => rfl

theorem map_snd_locate? (s : Scopes) (name : String) :
    (s.locate? name).map Prod.snd = s.find? name :=
  map_snd_locateIn? name s.toList

/-! ### Changing -/

/-- Adds a variable to the current scope. -/
def push (s : Scopes) (v : Variable) : Scopes :=
  { s with current := s.current.push v }

/-- Adds a variable to the current scope, which must not have one of this name yet. -/
def define (s : Scopes) (v : Variable) : Except Fault Scopes :=
  if (s.current.get? v.name).isSome then .error (.duplicateVariable v.name)
  else .ok (s.push v)

/-- Sets a variable in the scope with this number, among scopes given from the
    inside to the outside. -/
def setIn? (id : Nat) (name value : String) : List Scope → Option (List Scope)
  | [] => none
  | scope :: outer =>
    if outer.length = id then (scope.set? name value).map (· :: outer)
    else (setIn? id name value outer).map (scope :: ·)

/-- Sets the variable of this name in the scope with this number, if there is
    such a variable. -/
def set? (s : Scopes) (id : Nat) (name value : String) : Option Scopes :=
  if s.currentId = id then (s.current.set? name value).map fun current => { s with current }
  else (setIn? id name value s.outer).map fun outer => { s with outer }

theorem map_toList_set? (s : Scopes) (id : Nat) (name value : String) :
    (s.set? id name value).map toList = setIn? id name value s.toList := by
  rw [set?, toList, setIn?, currentId]
  split <;> simp [toList, Function.comp_def]

end Scopes

end LineCheck
