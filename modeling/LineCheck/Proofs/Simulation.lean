import LineCheck.Proofs.Tree

/-!
Comparing the check of a body in two states.

Two states of a check, given by open scopes and a table of methods, are related
by some `R`. If the single changes and tests of the scopes carry over from the
one to the other (`Simulation`), so does the check of whole bodies: what
succeeds in the first state succeeds in the second, and ends in related scopes
(`Simulation.check`, `Simulation.checkBodies`).
-/

namespace LineCheck

/-! ## Work that carries over -/

/-- Where the work `x` succeeds, the work `y` does so from related scopes, with
    the same result and in related scopes again. -/
def Carries {ε α : Type} (R : Scopes → Scopes → Prop) (x y : EStateM ε Scopes α) : Prop :=
  ∀ ⦃s s'⦄, R s s' → ∀ ⦃a t⦄, x s = .ok a t → ∃ t', y s' = .ok a t' ∧ R t t'

namespace Carries

variable {ε α β : Type} {R : Scopes → Scopes → Prop}

theorem pure (a : α) : Carries R (Pure.pure a : EStateM ε Scopes α) (Pure.pure a) := by
  intro s s' hR b t h
  cases h
  exact ⟨s', rfl, hR⟩

theorem bind {x y : EStateM ε Scopes α} {f g : α → EStateM ε Scopes β} (hx : Carries R x y)
    (hf : ∀ a, Carries R (f a) (g a)) : Carries R (x >>= f) (y >>= g) := by
  intro s s' hR b u h
  obtain ⟨a, t, ha, hb⟩ := bind_eq_ok_iff.1 h
  obtain ⟨t', ha', hR'⟩ := hx hR ha
  obtain ⟨u', hb', hR''⟩ := hf a hR' hb
  exact ⟨u', bind_eq_ok_iff.2 ⟨a, t', ha', hb'⟩, hR''⟩

theorem discard {x y : EStateM ε Scopes α} (h : Carries R x y) :
    Carries R (Functor.discard x) (Functor.discard y) := by
  intro s s' hR u t hx
  obtain ⟨a, ha⟩ := discard_eq_ok_iff.1 hx
  obtain ⟨t', ha', hR'⟩ := h hR ha
  exact ⟨t', discard_eq_ok_iff.2 ⟨a, ha'⟩, hR'⟩

theorem atLine {x y : Resolving α} (h : Carries R x y) (line : Nat) :
    Carries R (x.atLine line) (y.atLine line) := by
  intro s s' hR a t hx
  obtain ⟨t', hy, hR'⟩ := h hR (atLine_eq_ok_iff.1 hx)
  exact ⟨t', atLine_eq_ok_iff.2 hy, hR'⟩

theorem update {f g : Scopes → Except Fault Scopes}
    (h : ∀ s s' t, R s s' → f s = .ok t → ∃ t', g s' = .ok t' ∧ R t t') :
    Carries R (Resolving.update f) (Resolving.update g) := by
  intro s s' hR u t hf
  obtain ⟨t', hg, hR'⟩ := h s s' t hR (Resolving.update_eq_ok_iff.1 hf)
  exact ⟨t', Resolving.update_eq_ok_iff.2 hg, hR'⟩

theorem require {f g : Scopes → Except Fault Unit}
    (h : ∀ s s', R s s' → f s = .ok () → g s' = .ok ()) :
    Carries R (Resolving.require f) (Resolving.require g) := by
  intro s s' hR u t hf
  obtain ⟨hf', rfl⟩ := Resolving.require_eq_ok_iff.1 hf
  exact ⟨s', Resolving.require_eq_ok_iff.2 ⟨h _ _ hR hf', rfl⟩, hR⟩

theorem fail (line : Nat) (fault : Fault) (y : Checking α) :
    Carries R (Checking.fail line fault) y := by
  intro s s' _ a t h
  cases h

end Carries

/-! ## Simulations -/

/-- The changes and tests of the scopes that the check of a body makes carry
    over. The relation may depend on the number of scopes around the current
    one; inside a method there is at least one. -/
structure Simulation (methods methods' : MethodTable) (R : Nat → Scopes → Scopes → Prop) :
    Prop where
  enter : ∀ {n s s'} (kind : ScopeKind), R n s s' → R (n + 1) (s.enter kind) (s'.enter kind)
  leave : ∀ {n s s'}, R (n + 1) s s' → R n s.leave s'.leave
  define : ∀ {n s s' t} {v : Variable}, R (n + 1) s s' → s.define v = .ok t →
    ∃ t', s'.define v = .ok t' ∧ R (n + 1) t t'
  declareItem : ∀ {n s s' t} {isFinal : Bool} {ty : Ty} {d : Declarator}, R (n + 1) s s' →
    s.declareItem isFinal ty d = .ok t → ∃ t', s'.declareItem isFinal ty d = .ok t' ∧ R (n + 1) t t'
  assign : ∀ {n s s' t} {a : Assignment}, R (n + 1) s s' → s.assign a = .ok t →
    ∃ t', s'.assign a = .ok t' ∧ R (n + 1) t t'
  call : ∀ {n s s'} {c : Call}, R (n + 1) s s' → methods.checkCall c s = .ok () →
    methods'.checkCall c s' = .ok ()
  condition : ∀ {n s s'} {c : String}, R (n + 1) s s' → Condition.check c s = .ok () →
    Condition.check c s' = .ok ()

namespace Simulation

variable {methods methods' : MethodTable} {R : Nat → Scopes → Scopes → Prop}
  (sim : Simulation methods methods' R)

include sim

theorem inScope {x y : Checking Unit} {n : Nat} (h : Carries (R (n + 1)) x y) (kind : ScopeKind) :
    Carries (R n) (inScope kind x) (inScope kind y) := by
  intro s s' hR u t hx
  obtain ⟨t₁, hwork, rfl⟩ := inScope_eq_ok_iff.1 hx
  obtain ⟨t₁', hy, hR'⟩ := h (sim.enter kind hR) hwork
  exact ⟨t₁'.leave, inScope_eq_ok_iff.2 ⟨t₁', hy, rfl⟩, sim.leave hR'⟩

theorem declareItems (isFinal : Bool) (ty : Ty) (items : List Declarator) (n : Nat) :
    Carries (R (n + 1)) (declareItems isFinal ty items) (declareItems isFinal ty items) := by
  induction items with
  | nil => exact .pure ()
  | cons d ds ih => exact .bind (.update fun _ _ _ => sim.declareItem) fun _ => ih

theorem resolve (statement : Statement) (n : Nat) :
    Carries (R (n + 1)) (resolve methods statement) (resolve methods' statement) := by
  cases statement with
  | declaration d =>
    exact .discard (.bind (sim.declareItems d.isFinal d.ty d.items n) fun _ => .pure _)
  | assignment a => exact .update fun _ _ _ => sim.assign
  | call c => exact .require fun _ _ => sim.call

theorem statementAt (line : Nat) (text : String) (n : Nat) :
    Carries (R (n + 1)) (statementAt methods line text) (statementAt methods' line text) := by
  unfold LineCheck.statementAt
  cases Statement.ofText? text with
  | none => exact .fail _ _ _
  | some statement => exact (sim.resolve statement n).atLine line

theorem headerAt (line : Nat) (text : String) (n : Nat) :
    Carries (R (n + 1)) (headerAt line text) (headerAt line text) := by
  unfold LineCheck.headerAt
  cases BlockHeader.ofText? text with
  | none => exact .fail _ _ _
  | some header =>
    have hcondition : Carries (R (n + 1)) (Resolving.require (Condition.check header.condition))
        (Resolving.require (Condition.check header.condition)) := .require fun _ _ => sim.condition
    exact hcondition.atLine line

/-- **The check of a body carries over.** By recursion on the body: a block is
    one scope deeper. -/
theorem check (b : Body) (count n : Nat) :
    Carries (R (n + 1)) (b.check methods count) (b.check methods' count) := by
  induction b generalizing count n with
  | nil => exact .pure ()
  | trivia line rest ih | returnLine line rest ih => exact ih (count + 1) n
  | statement line rest ih =>
    exact .bind (sim.statementAt (count + 1) line.text n) fun _ => ih (count + 1) n
  | block header body close rest ihb ihr =>
    refine .bind (sim.headerAt (count + 1) header.text n) fun _ => ?_
    refine .bind (sim.inScope (ihb (count + 1) (n + 1)) .block) fun _ => ?_
    exact ihr (count + body.size + 2) n

theorem receive (line : Nat) (params : List Variable) (n : Nat) :
    Carries (R (n + 1)) (receive line params) (receive line params) := by
  induction params with
  | nil => exact .pure ()
  | cons param params ih =>
    exact .bind (.atLine (.update fun _ _ _ => sim.define) line) fun _ => ih

omit sim in
theorem checkReturn (m : Method) (b : Body) (n : Nat) :
    Carries (R n) (b.checkReturn m) (b.checkReturn m) := by
  unfold Body.checkReturn
  by_cases h : b.endsInReturn
  · rw [if_pos h]
    exact .pure ()
  · rw [if_neg h]
    exact .fail _ _ _

theorem checkMethod (m : Method) (b : Body) (n : Nat) :
    Carries (R n) (b.checkMethod methods m) (b.checkMethod methods' m) := by
  refine sim.inScope ?_ .method
  refine .bind (sim.receive m.line m.params n) fun _ => ?_
  exact .bind (sim.check b m.line n) fun _ => checkReturn m b (n + 1)

theorem checkBodies (pairs : List (Method × Body)) (n : Nat) :
    Carries (R n) (checkBodies methods pairs) (checkBodies methods' pairs) := by
  induction pairs with
  | nil => exact .pure ()
  | cons pair pairs ih => exact .bind (sim.checkMethod pair.1 pair.2 n) fun _ => ih

end Simulation

end LineCheck
