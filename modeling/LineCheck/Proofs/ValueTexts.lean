import LineCheck.Proofs.Composition
import LineCheck.Proofs.Pointwise

/-!
The texts of values have no effect.

A variable keeps its value as text, and a check asks only whether there is one:
the texts in a fault come from the program. So two walks from scopes that differ
in nothing but these texts (`Scopes.EqButText`) give the same result, and their
scopes differ in nothing else all the time. Each single step is shown to do so
(`Agrees`), and with it the walks that are made of them.
-/

namespace LineCheck

/-! ## The same but for texts -/

/-- The variables are the same, and both have a value or neither has, but the
    texts of the values may differ. -/
structure Variable.EqButText (v v' : Variable) : Prop where
  name : v'.name = v.name
  ty : v'.ty = v.ty
  isFinal : v'.isFinal = v.isFinal
  isAssigned : v'.isAssigned = v.isAssigned

namespace Variable

instance decidableEqButText (v v' : Variable) : Decidable (v.EqButText v') :=
  decidable_of_iff (v'.name = v.name ∧ v'.ty = v.ty ∧ v'.isFinal = v.isFinal ∧
      v'.isAssigned = v.isAssigned)
    ⟨fun ⟨h₁, h₂, h₃, h₄⟩ => ⟨h₁, h₂, h₃, h₄⟩, fun ⟨h₁, h₂, h₃, h₄⟩ => ⟨h₁, h₂, h₃, h₄⟩⟩

theorem EqButText.refl (v : Variable) : v.EqButText v :=
  ⟨rfl, rfl, rfl, rfl⟩

theorem EqButText.set {v v' : Variable} (h : v.EqButText v') (value value' : String) :
    EqButText { v with value := some value } { v' with value := some value' } :=
  ⟨h.name, h.ty, h.isFinal, rfl⟩

end Variable

/-- The open scopes are the same, but for the texts of the values. -/
abbrev Scopes.EqButText (s s' : Scopes) : Prop :=
  s.Pointwise Variable.EqButText s'

/-- Both results are values in the given relation, or both are the same fault. -/
inductive SameFault {α : Type} (P : α → α → Prop) : Except Fault α → Except Fault α → Prop
  | ok {a a' : α} (h : P a a') : SameFault P (.ok a) (.ok a')
  | error (fault : Fault) : SameFault P (.error fault) (.error fault)

theorem SameFault.map {α β : Type} {P : α → α → Prop} {Q : β → β → Prop} {x x' : Except Fault α}
    {f f' : α → β} (h : SameFault P x x') (hf : ∀ a a', P a a' → Q (f a) (f' a')) :
    SameFault Q (x.map f) (x'.map f') := by
  cases h with
  | ok ha => exact .ok (hf _ _ ha)
  | error fault => exact .error fault

/-- Both results are the same, success or failure, in related scopes. -/
inductive SameOutcome {ε α : Type} (R : Scopes → Scopes → Prop) :
    EStateM.Result ε Scopes α → EStateM.Result ε Scopes α → Prop
  | ok (a : α) {t t' : Scopes} (h : R t t') : SameOutcome R (.ok a t) (.ok a t')
  | error (e : ε) {t t' : Scopes} (h : R t t') : SameOutcome R (.error e t) (.error e t')

theorem SameOutcome.exists_error {ε α : Type} {R : Scopes → Scopes → Prop}
    {r r' : EStateM.Result ε Scopes α} (h : SameOutcome R r r') {e : ε} {t : Scopes}
    (hr : r = .error e t) : ∃ t', r' = .error e t' ∧ R t t' := by
  cases h with
  | ok => cases hr
  | error _ hR =>
    cases hr
    exact ⟨_, rfl, hR⟩

/-- The work has the same outcome from related scopes. -/
def Agrees {ε α : Type} (R : Scopes → Scopes → Prop) (x : EStateM ε Scopes α) : Prop :=
  ∀ ⦃s s'⦄, R s s' → SameOutcome R (x s) (x s')

namespace Agrees

variable {ε α β : Type} {R : Scopes → Scopes → Prop}

theorem pure (a : α) : Agrees R (Pure.pure a : EStateM ε Scopes α) :=
  fun _ _ hR => .ok a hR

theorem bind {x : EStateM ε Scopes α} {f : α → EStateM ε Scopes β} (hx : Agrees R x)
    (hf : ∀ a, Agrees R (f a)) : Agrees R (x >>= f) := by
  intro s s' hR
  have hboth := hx hR
  simp only [Bind.bind, EStateM.bind]
  generalize x s = r at hboth ⊢
  generalize x s' = r' at hboth ⊢
  cases hboth with
  | ok a hR' => exact hf a hR'
  | error e hR' => exact .error e hR'

theorem fail (line : Nat) (fault : Fault) : Agrees R (Checking.fail line fault : Checking α) :=
  fun _ _ hR => .error _ hR

theorem modify {f : Scopes → Scopes} (h : ∀ s s', R s s' → R (f s) (f s')) :
    Agrees R (modify f : EStateM ε Scopes PUnit) :=
  fun s s' hR => .ok _ (h s s' hR)

theorem atLine {x : Resolving α} (hx : Agrees R x) (line : Nat) : Agrees R (x.atLine line) := by
  intro s s' hR
  have hboth := hx hR
  unfold Resolving.atLine
  generalize x s = r at hboth ⊢
  generalize x s' = r' at hboth ⊢
  cases hboth with
  | ok a hR' => exact .ok a hR'
  | error fault hR' => exact .error _ hR'

theorem update {f : Scopes → Except Fault Scopes} (h : ∀ s s', R s s' → SameFault R (f s) (f s')) :
    Agrees R (Resolving.update f) := by
  intro s s' hR
  have hboth := h s s' hR
  unfold Resolving.update
  generalize f s = r at hboth ⊢
  generalize f s' = r' at hboth ⊢
  cases hboth with
  | ok hR' => exact .ok () hR'
  | error fault => exact .error fault hR

theorem require {f : Scopes → Except Fault Unit} (h : ∀ s s', R s s' → f s = f s') :
    Agrees R (Resolving.require f) := by
  intro s s' hR
  unfold Resolving.require
  rw [h s s' hR]
  cases f s' with
  | ok => exact .ok () hR
  | error fault => exact .error fault hR

end Agrees

/-! ## Single steps -/

theorem any_eq_of_forall₂ {α : Type} {R : α → α → Prop} {p : α → Bool} {l l' : List α}
    (h : List.Forall₂ R l l') (hp : ∀ a a', R a a' → p a' = p a) : l.any p = l'.any p := by
  induction h with
  | nil => rfl
  | cons ha _ ih => rw [List.any_cons, List.any_cons, hp _ _ ha, ih]

namespace Scopes.EqButText

variable {s s' : Scopes} (h : s.EqButText s')

include h

theorem isSome_get?_current (name : String) :
    (s'.current.get? name).isSome = (s.current.get? name).isSome := by
  have hget := h.current.get? Variable.EqButText.name name
  generalize s.current.get? name = found at hget ⊢
  generalize s'.current.get? name = found' at hget ⊢
  cases hget <;> rfl

/-- An operand has a value in both, or the same fault. -/
theorem valueFor (target : Ty) (operand : Operand) :
    SameFault (fun _ _ => True) (s.valueFor target operand) (s'.valueFor target operand) := by
  cases operand with
  | literal l =>
    simp only [Scopes.valueFor]
    cases l.valueFor target with
    | ok value => exact .ok trivial
    | error fault => exact .error fault
  | var name =>
    have hfind := h.find? Variable.EqButText.name name
    simp only [Scopes.valueFor]
    generalize s.find? name = found at hfind ⊢
    generalize s'.find? name = found' at hfind ⊢
    cases hfind with
    | none => exact .error _
    | @some v v' hv =>
      obtain ⟨vname, ty, value, isFinal⟩ := v
      obtain ⟨vname', ty', value', isFinal'⟩ := v'
      obtain ⟨rfl, rfl, rfl, hassigned⟩ := hv
      cases value <;> cases value' <;> simp [Variable.isAssigned] at hassigned
      · exact .error _
      · simp only [Variable.valueFor]
        split
        · exact .ok trivial
        · exact .error _

theorem initialValue (isFinal : Bool) (ty : Ty) (d : Declarator) :
    SameFault (fun value value' => value'.isSome = value.isSome) (s.initialValue isFinal ty d)
      (s'.initialValue isFinal ty d) := by
  unfold Scopes.initialValue
  cases d.value with
  | some operand => exact (h.valueFor ty operand).map fun _ _ _ => rfl
  | none =>
    cases isFinal with
    | true => exact .error _
    | false => exact .ok rfl

theorem define (v : Variable) : SameFault Scopes.EqButText (s.define v) (s'.define v) := by
  unfold Scopes.define
  rw [h.isSome_get?_current]
  split
  · exact .error _
  · exact .ok (h.push (.refl v))

theorem declareItem (isFinal : Bool) (ty : Ty) (d : Declarator) :
    SameFault Scopes.EqButText (s.declareItem isFinal ty d) (s'.declareItem isFinal ty d) := by
  unfold Scopes.declareItem
  rw [h.isSome_get?_current]
  split
  · exact .error _
  · exact (h.initialValue isFinal ty d).map fun _ _ hvalue => h.push ⟨rfl, rfl, rfl, hvalue⟩

theorem assign (a : Assignment) : SameFault Scopes.EqButText (s.assign a) (s'.assign a) := by
  unfold Scopes.assign
  cases hlocate : s.locate? a.name with
  | none =>
    have hfind := h.find? Variable.EqButText.name a.name
    rw [← map_snd_locate?, ← map_snd_locate?, hlocate] at hfind
    cases hlocate' : s'.locate? a.name with
    | none => exact .error _
    | some place =>
      rw [hlocate'] at hfind
      cases hfind
  | some place =>
    obtain ⟨id, v⟩ := place
    -- whatever the values are, they are set at the same place
    have hsets : ∀ value value',
        ∃ id' v' t t', s'.locate? a.name = some (id', v') ∧ v.EqButText v' ∧
          s.set? id a.name value = some t ∧ s'.set? id' a.name value' = some t' ∧
          t.EqButText t' := by
      intro value value'
      obtain ⟨t, ht, hset⟩ := exists_sets_of_locate? hlocate value
      obtain ⟨v', t', hv, hset', heq⟩ := h.sets Variable.EqButText.name hset value'
      obtain ⟨id', hlocate', ht'⟩ := hset'.locate?
      exact ⟨id', v', t, t', hlocate', hv, ht, ht', heq (hv.set value value')⟩
    obtain ⟨id', v', -, -, hlocate', hv, -⟩ := hsets "" ""
    simp only [hlocate', hv.isFinal, hv.ty]
    split
    · exact .error _
    · refine (h.valueFor v.ty a.value).map fun value value' _ => ?_
      obtain ⟨id'', v'', t, t', hlocate'', -, ht, ht', heq⟩ := hsets value value'
      rw [hlocate'] at hlocate''
      cases hlocate''
      rw [ht, ht']
      exact heq

theorem checkArgs (method : String) (position : Nat) (params : List Variable)
    (args : List Operand) :
    MethodTable.checkArgs s method position params args =
      MethodTable.checkArgs s' method position params args := by
  induction params generalizing position args with
  | nil => simp only [MethodTable.checkArgs]
  | cons param params ih =>
    cases args with
    | nil => simp only [MethodTable.checkArgs]
    | cons arg args =>
      have hvalue := h.valueFor param.ty arg
      simp only [MethodTable.checkArgs]
      generalize s.valueFor param.ty arg = r at hvalue ⊢
      generalize s'.valueFor param.ty arg = r' at hvalue ⊢
      cases hvalue with
      | ok => exact ih (position + 1) args
      | error fault => rfl

theorem checkCall (methods : MethodTable) (c : Call) :
    methods.checkCall c s = methods.checkCall c s' := by
  unfold MethodTable.checkCall
  simp only [h.checkArgs]

theorem isTerm (text : List Char) : Condition.isTerm s text = Condition.isTerm s' text := by
  unfold Condition.isTerm
  split
  · rfl
  · refine any_eq_of_forall₂ (h.findAll Variable.EqButText.name _) fun v v' hv => ?_
    rw [hv.isAssigned, hv.ty]
  · rfl

theorem checkTerms (pieces : List (List Char)) :
    Condition.checkTerms s pieces = Condition.checkTerms s' pieces := by
  induction pieces with
  | nil => rfl
  | cons piece pieces ih => rw [Condition.checkTerms, Condition.checkTerms, h.isTerm, ih]

theorem checkRuns (whole : List Char) (runs : List (List Char)) :
    Condition.checkRuns s whole runs = Condition.checkRuns s' whole runs := by
  induction runs with
  | nil => rfl
  | cons run runs ih => rw [Condition.checkRuns, Condition.checkRuns, h.checkTerms, ih]

theorem checkCondition (c : String) : Condition.check c s = Condition.check c s' := by
  rw [Condition.check, Condition.check, h.checkRuns]

end Scopes.EqButText

/-! ## Walks -/

theorem Composed.agrees {methods : MethodTable} {x : Checking Unit} (hx : Composed methods x) :
    Agrees Scopes.EqButText x := by
  induction hx with
  | done => exact .pure ()
  | seq _ _ ihx ihy => exact .bind ihx fun _ => ihy
  | fail line fault => exact .fail line fault
  | enter kind => exact .modify fun _ _ h => h.enter kind
  | leave => exact .modify fun _ _ h => h.leave
  | define line v => exact .atLine (.update fun _ _ h => h.define v) line
  | declareItem line isFinal ty d =>
    exact .atLine (.update fun _ _ h => h.declareItem isFinal ty d) line
  | assign line a => exact .atLine (.update fun _ _ h => h.assign a) line
  | call line c => exact .atLine (.require fun _ _ h => h.checkCall methods c) line
  | condition line c => exact .atLine (.require fun _ _ h => h.checkCondition c) line

/-- **A walk does not depend on the texts of values.** From scopes that are the
    same but for these texts the walk through a method has the same outcome: it
    succeeds from both or fails from both with the same violation, and either
    way the scopes it ends in are the same but for the texts. -/
theorem sameOutcome_walkMethod (found : Survey) (m : Method) {s s' : Scopes} (h : s.EqButText s') :
    SameOutcome Scopes.EqButText (walkMethod found m s) (walkMethod found m s') :=
  (Composed.walkMethod found m).agrees h

/-- A walk that copies the value of a parameter, which has no text, to a global
    variable, and then fails at a use of a variable without a value: it fails
    alike where the global variable has another value. -/
theorem walkMethod_of_other_text :
    ∃ t, walkMethod ⟨[⟨1, "void f(int p) \x7b", 0, .blockOpen⟩, ⟨2, "a = p;", 1, .statement⟩,
        ⟨3, "a = b;", 1, .statement⟩, ⟨4, "return;", 1, .returnLine⟩, ⟨5, "\x7d", 1, .blockClose⟩],
        ⟨[⟨"f", [⟨"p", .int, none, false⟩], 1⟩]⟩⟩ ⟨"f", [⟨"p", .int, none, false⟩], 1⟩
        ⟨⟨.global, [⟨"a", .int, some "22", false⟩, ⟨"b", .int, none, false⟩]⟩, []⟩ =
      .error ⟨3, .unassignedVariable "b"⟩ t ∧
    Scopes.EqButText ⟨⟨.method, [⟨"p", .int, some "", false⟩]⟩,
      [⟨.global, [⟨"a", .int, some "", false⟩, ⟨"b", .int, none, false⟩]⟩]⟩ t :=
  (sameOutcome_walkMethod _ _
    (s := ⟨⟨.global, [⟨"a", .int, some "1", false⟩, ⟨"b", .int, none, false⟩]⟩, []⟩)
    (by decide)).exists_error (by decide +kernel)

end LineCheck
