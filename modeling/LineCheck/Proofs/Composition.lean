import LineCheck.Proofs.Simulation

/-!
What a walk is made of.

Whatever lines it is given, the walk through a method is a sequence of single
steps: scopes are opened and closed, variables are declared and assigned, calls
and conditions are tested, and a fault may end it. `Composed` says so, and is
the way to compare two walks from different scopes: a comparison that each
single step keeps is kept by the walk (`Simulation.composed`).
-/

namespace LineCheck

/-- Work that is done in single steps of a walk, one after the other. -/
inductive Composed (methods : MethodTable) : Checking Unit → Prop
  | done : Composed methods (pure ())
  | seq {x y : Checking Unit} (hx : Composed methods x) (hy : Composed methods y) :
    Composed methods (x >>= fun _ => y)
  | fail (line : Nat) (fault : Fault) : Composed methods (.fail line fault)
  | enter (kind : ScopeKind) : Composed methods (modify (·.enter kind))
  | leave : Composed methods (modify Scopes.leave)
  | define (line : Nat) (v : Variable) :
    Composed methods ((Resolving.update (·.define v)).atLine line)
  | declareItem (line : Nat) (isFinal : Bool) (ty : Ty) (d : Declarator) :
    Composed methods ((Resolving.update (Scopes.declareItem isFinal ty d)).atLine line)
  | assign (line : Nat) (a : Assignment) :
    Composed methods ((Resolving.update (Scopes.assign a)).atLine line)
  | call (line : Nat) (c : Call) :
    Composed methods ((Resolving.require (methods.checkCall c)).atLine line)
  | condition (line : Nat) (c : String) :
    Composed methods ((Resolving.require (Condition.check c)).atLine line)

namespace Composed

variable {methods : MethodTable}

theorem declareItems (line : Nat) (isFinal : Bool) (ty : Ty) (items : List Declarator) :
    Composed methods ((declareItems isFinal ty items).atLine line) := by
  induction items with
  | nil => exact .done
  | cons d ds ih =>
    rw [LineCheck.declareItems, atLine_bind]
    exact .seq (.declareItem line isFinal ty d) ih

theorem checkStatement (line : Line) : Composed methods (checkStatement methods line) := by
  cases h : Statement.ofText? line.text with
  | none =>
    rw [LineCheck.checkStatement, h]
    exact .fail _ _
  | some statement =>
    cases statement with
    | declaration d =>
      rw [checkStatement_declaration h]
      exact .declareItems line.number d.isFinal d.ty d.items
    | assignment a =>
      rw [LineCheck.checkStatement, h]
      exact .assign line.number a
    | call c =>
      rw [LineCheck.checkStatement, h]
      exact .call line.number c

theorem checkBlock (line : Line) : Composed methods (checkBlock line) := by
  unfold LineCheck.checkBlock
  cases BlockHeader.ofText? line.text with
  | none => exact .fail _ _
  | some header => exact .seq (.condition line.number header.condition) (.enter .block)

theorem receive (line : Nat) (params : List Variable) : Composed methods (receive line params) := by
  induction params with
  | nil => exact .done
  | cons param params ih => exact .seq (.define line param.received) ih

theorem walk (method : String) (lines : List Line) (nesting : Nat) (returned : Bool) :
    Composed methods (walk methods method lines nesting returned) := by
  induction lines generalizing nesting returned with
  | nil => exact .done
  | cons line lines ih =>
    rw [LineCheck.walk]
    cases line.kind with
    | comment | blank => exact ih nesting returned
    | returnLine => exact ih nesting (returned || line.depth == 1)
    | statement => exact .seq (.checkStatement line) (ih nesting false)
    | blockOpen => exact .seq (.checkBlock line) (ih (nesting + 1) false)
    | blockClose =>
      by_cases hmissing : nesting = 1 ∧ returned = false
      · simp only [if_pos hmissing]
        exact .fail _ _
      · simp only [if_neg hmissing]
        by_cases hlast : nesting = 1
        · simp only [if_pos hlast]
          exact .seq .leave .done
        · simp only [if_neg hlast]
          exact .seq .leave (ih (nesting - 1) returned)

/-- **The walk through a method is done in single steps**, whatever the lines are. -/
theorem walkMethod (found : Survey) (m : Method) : Composed found.methods (walkMethod found m) :=
  .seq (.enter .method) (.seq (.receive m.line m.params)
    (.walk m.name (found.lines.drop m.line) 1 false))

end Composed

/-- What single steps carry over, from scopes to related ones, is carried over
    by all of them. -/
theorem Simulation.composed {methods : MethodTable} {R : Scopes → Scopes → Prop}
    (sim : Simulation methods methods fun _ => R) {x : Checking Unit} (h : Composed methods x) :
    Carries R x x := by
  induction h with
  | done => exact .pure ()
  | seq _ _ ihx ihy => exact .bind ihx fun _ => ihy
  | fail line fault => exact .fail line fault _
  | enter kind =>
    rintro s s' hR u t ⟨⟩
    exact ⟨s'.enter kind, rfl, sim.enter (n := 0) kind hR⟩
  | leave =>
    rintro s s' hR u t ⟨⟩
    exact ⟨s'.leave, rfl, sim.leave (n := 0) hR⟩
  | define line v => exact .atLine (.update fun _ _ _ => sim.define (n := 0)) line
  | declareItem line isFinal ty d =>
    exact .atLine (.update fun _ _ _ => sim.declareItem (n := 0)) line
  | assign line a => exact .atLine (.update fun _ _ _ => sim.assign (n := 0)) line
  | call line c =>
    have hcall : Carries R (Resolving.require (methods.checkCall c))
        (Resolving.require (methods.checkCall c)) := .require fun _ _ => sim.call (n := 0)
    exact hcall.atLine line
  | condition line c =>
    have hcondition : Carries R (Resolving.require (Condition.check c))
        (Resolving.require (Condition.check c)) := .require fun _ _ => sim.condition (n := 0)
    exact hcondition.atLine line

end LineCheck
