import LineCheck.Check

/-!
Laws of work on the open scopes (`Resolving`, `Checking`): when a sequence of
two works succeeds and when it fails, and what it means to work at a line or in
a scope of its own.
-/

namespace LineCheck

/-! ## Results -/

section Result

variable {ε σ α : Type} [DecidableEq ε] [DecidableEq σ] [DecidableEq α]

/-- Results can be compared, so the check of given lines can be computed. -/
instance decidableEqResult : DecidableEq (EStateM.Result ε σ α)
  | .ok a s, .ok b t => decidable_of_iff (a = b ∧ s = t) (by simp)
  | .error e s, .error f t => decidable_of_iff (e = f ∧ s = t) (by simp)
  | .ok _ _, .error _ _ => isFalse (by simp)
  | .error _ _, .ok _ _ => isFalse (by simp)

instance decidableEqExcept : DecidableEq (Except ε α)
  | .ok a, .ok b => decidable_of_iff (a = b) (by simp)
  | .error e, .error f => decidable_of_iff (e = f) (by simp)
  | .ok _, .error _ => isFalse (by simp)
  | .error _, .ok _ => isFalse (by simp)

end Result

/-! ## Sequences -/

section Sequence

variable {ε σ α β : Type} {x : EStateM ε σ α} {f : α → EStateM ε σ β} {s s' t : σ}

theorem bind_of_ok {a : α} (h : x s = .ok a t) : (x >>= f) s = f a t := by
  simp only [bind, EStateM.bind, h]

theorem bind_of_error {e : ε} (h : x s = .error e t) : (x >>= f) s = .error e t := by
  simp only [bind, EStateM.bind, h]

theorem bind_eq_ok_iff {b : β} :
    (x >>= f) s = .ok b s' ↔ ∃ a t, x s = .ok a t ∧ f a t = .ok b s' := by
  cases h : x s with
  | ok a t =>
    rw [bind_of_ok h]
    refine ⟨fun hf => ⟨a, t, rfl, hf⟩, ?_⟩
    rintro ⟨a', t', heq, hf⟩
    cases heq
    exact hf
  | error e t => simp [bind_of_error h]

theorem bind_eq_error_iff {e : ε} :
    (x >>= f) s = .error e s' ↔
      x s = .error e s' ∨ ∃ a t, x s = .ok a t ∧ f a t = .error e s' := by
  cases h : x s with
  | ok a t =>
    rw [bind_of_ok h]
    refine ⟨fun hf => Or.inr ⟨a, t, rfl, hf⟩, ?_⟩
    rintro (heq | ⟨a', t', heq, hf⟩) <;> cases heq
    exact hf
  | error e t => simp [bind_of_error h]

@[simp]
theorem pure_apply (a : α) (s : σ) : (pure a : EStateM ε σ α) s = .ok a s :=
  rfl

@[simp]
theorem modify_apply (g : σ → σ) (s : σ) : (modify g : EStateM ε σ PUnit) s = .ok ⟨⟩ (g s) :=
  rfl

@[simp]
theorem get_apply (s : σ) : (get : EStateM ε σ σ) s = .ok s s :=
  rfl

@[simp]
theorem discard_eq_ok_iff {u : PUnit} : discard x s = .ok u s' ↔ ∃ a, x s = .ok a s' := by
  cases h : x s <;> simp [discard, Functor.discard, Functor.mapConst, EStateM.map, h]

@[simp]
theorem discard_eq_error_iff {e : ε} : discard x s = .error e s' ↔ x s = .error e s' := by
  cases h : x s <;> simp [discard, Functor.discard, Functor.mapConst, EStateM.map, h]

end Sequence

/-! ## Lines -/

@[simp]
theorem fail_apply {α : Type} (line : Nat) (fault : Fault) (s : Scopes) :
    (Checking.fail line fault : Checking α) s = .error ⟨line, fault⟩ s :=
  rfl

@[simp]
theorem fail_bind {α β : Type} (line : Nat) (fault : Fault) (f : α → Checking β) :
    (Checking.fail line fault >>= f) = Checking.fail line fault :=
  rfl

section AtLine

variable {α : Type} {work : Resolving α} {line : Nat} {s s' : Scopes}

@[simp]
theorem atLine_eq_ok_iff {a : α} : work.atLine line s = .ok a s' ↔ work s = .ok a s' := by
  unfold Resolving.atLine
  cases work s <;> simp

@[simp]
theorem atLine_eq_error_iff {v : Violation} :
    work.atLine line s = .error v s' ↔ v.line = line ∧ work s = .error v.fault s' := by
  unfold Resolving.atLine
  cases work s with
  | ok a t => simp
  | error fault t =>
    obtain ⟨l, f⟩ := v
    simp only [EStateM.Result.error.injEq, Violation.mk.injEq]
    constructor
    · rintro ⟨⟨rfl, rfl⟩, rfl⟩; exact ⟨rfl, rfl, rfl⟩
    · rintro ⟨rfl, rfl, rfl⟩; exact ⟨⟨rfl, rfl⟩, rfl⟩

theorem discard_atLine (line : Nat) (work : Resolving α) :
    (discard work).atLine line = discard (work.atLine line) := by
  funext s
  cases h : work s <;>
    simp [Resolving.atLine, discard, Functor.discard, Functor.mapConst, EStateM.map, h]

theorem atLine_bind {β : Type} (line : Nat) (x : Resolving α) (f : α → Resolving β) :
    (x >>= f).atLine line = (do
      let a ← x.atLine line
      (f a).atLine line) := by
  funext s
  cases h : x s with
  | ok a t =>
    rw [bind_of_ok (atLine_eq_ok_iff.2 h)]
    simp only [Resolving.atLine, bind_of_ok h]
  | error fault t =>
    rw [bind_of_error (atLine_eq_error_iff.2 ⟨rfl, h⟩ : x.atLine line s = .error ⟨line, fault⟩ t)]
    simp only [Resolving.atLine, bind_of_error h]

end AtLine

/-! ## Declarations -/

/-- A declaration carried out as a whole is the declaration of its variables. -/
theorem discard_declare (d : Declaration) :
    discard (declare d) = declareItems d.isFinal d.ty d.items := by
  funext s
  cases h : declareItems d.isFinal d.ty d.items s with
  | ok u t => exact discard_eq_ok_iff.2 ⟨_, bind_of_ok h⟩
  | error fault t => exact discard_eq_error_iff.2 (bind_of_error h)

theorem globalStatement_declaration {text : String} {d : Declaration}
    (h : Statement.ofText? text = some (.declaration d)) (line : Nat) :
    globalStatement line text = (declareItems d.isFinal d.ty d.items).atLine line := by
  rw [globalStatement, h, ← discard_declare, discard_atLine]

theorem checkStatement_declaration {line : Line} {d : Declaration}
    (h : Statement.ofText? line.text = some (.declaration d)) (methods : MethodTable) :
    checkStatement methods line = (declareItems d.isFinal d.ty d.items).atLine line.number := by
  rw [checkStatement, h, ← discard_declare]
  rfl

/-! ## Steps and tests -/

namespace Resolving

variable {s s' : Scopes} {u : Unit} {fault : Fault}

@[simp]
theorem update_eq_ok_iff {step : Scopes → Except Fault Scopes} :
    update step s = .ok u s' ↔ step s = .ok s' := by
  unfold update
  cases step s <;> simp

@[simp]
theorem update_eq_error_iff {step : Scopes → Except Fault Scopes} :
    update step s = .error fault s' ↔ step s = .error fault ∧ s' = s := by
  unfold update
  cases step s <;> simp [eq_comm]

@[simp]
theorem require_eq_ok_iff {test : Scopes → Except Fault Unit} :
    require test s = .ok u s' ↔ test s = .ok () ∧ s' = s := by
  unfold require
  cases test s <;> simp [eq_comm]

@[simp]
theorem require_eq_error_iff {test : Scopes → Except Fault Unit} :
    require test s = .error fault s' ↔ test s = .error fault ∧ s' = s := by
  unfold require
  cases test s <;> simp [eq_comm]

end Resolving

end LineCheck
