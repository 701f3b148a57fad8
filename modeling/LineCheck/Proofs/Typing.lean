import LineCheck.Proofs.Change
import LineCheck.Proofs.Scopes

/-!
Stored values are values of their types.

The value of a variable is a text. It is empty for a parameter, of which nothing
is known, and else it comes from a literal, though perhaps over other variables
and by widening. Every change of the scopes keeps the values well typed
(`Scopes.WellTyped.change`), so they are so throughout every run.
-/

namespace LineCheck

/-! ## Well-typed scopes -/

/-- A text that a variable of this type may hold: nothing is known of it, or it
    is spelled as a value of the type. -/
def Ty.Holds (ty : Ty) (value : String) : Prop :=
  value = "" ∨ ty.Spells value.toList

theorem Ty.holds_of_accepts {target source : Ty} (h : target.accepts source = true) {value : String}
    (hv : source.Holds value) : target.Holds value := by
  rcases hv with hempty | hspells
  · exact .inl hempty
  · exact .inr (spells_of_accepts h hspells)

/-- The value of a variable, if it has one, is one that its type may hold. -/
def Variable.WellTyped (v : Variable) : Prop :=
  ∀ value, v.value = some value → v.ty.Holds value

/-- All variables of all open scopes are well typed. -/
def Scopes.WellTyped (s : Scopes) : Prop :=
  ∀ scope ∈ s.toList, ∀ v ∈ scope.vars, v.WellTyped

namespace Scopes.WellTyped

variable {s t : Scopes}

/-- What an operand stands for may be held by variables of the type that is needed. -/
theorem valueFor (h : s.WellTyped) {target : Ty} {o : Operand} (ho : o.IsProper) {value : String}
    (hv : s.valueFor target o = .ok value) : target.Holds value := by
  cases o with
  | literal l =>
    obtain ⟨haccepts, rfl⟩ := valueFor_literal_eq_ok_iff.1 hv
    exact .inr (Ty.spells_of_accepts haccepts ho)
  | var name =>
    obtain ⟨v, hfind, hvalue, haccepts⟩ := valueFor_var_eq_ok_iff.1 hv
    exact Ty.holds_of_accepts haccepts (Every.find? h hfind value hvalue)

/-- Every change keeps the values well typed. -/
theorem change (h : s.WellTyped) (hchange : Change s t) : t.WellTyped := by
  cases hchange with
  | same => exact h
  | enter kind => exact Every.enter h kind
  | leave => exact Every.leave h
  | @receive v _ hdef =>
    obtain ⟨-, rfl⟩ := define_eq_ok_iff.1 hdef
    refine Every.push h ?_
    rintro _ ⟨⟩
    exact .inl rfl
  | declare hd hdecl =>
    obtain ⟨-, value, hvalue, rfl⟩ := declareItem_eq_ok_iff.1 hdecl
    refine Every.push h ?_
    intro text htext
    rcases initialValue_eq_ok_iff.1 hvalue with ⟨-, -, rfl⟩ | ⟨o, text', ho, hfor, rfl⟩
    · cases htext
    · cases htext
      exact h.valueFor (hd o ho) hfor
  | assign ha hassign =>
    obtain ⟨v, value, -, hfor, hset⟩ := assign_eq_ok_iff.1 hassign
    refine Every.sets h hset ?_
    rintro _ ⟨⟩
    exact h.valueFor ha hfor

end Scopes.WellTyped

/-! ## Runs -/

/-- **Stored values are well typed.** At every step of a check, and in the
    scopes that it leaves, with or without a violation, a variable that has a
    value holds the empty text or a text that is spelled as a value of its
    type. -/
theorem value_eq_empty_or_spells (texts : List String) :
    (∀ n, (run texts n).outcome = checkProgram texts .initial ∧
      ∀ scope ∈ (run texts n).scopes.toList, ∀ v ∈ scope.vars, ∀ value, v.value = some value →
        value = "" ∨ v.ty.Spells value.toList) ∧
    ∀ scope ∈ (scopesAfter (checkProgram texts .initial)).toList, ∀ v ∈ scope.vars, ∀ value,
      v.value = some value → value = "" ∨ v.ty.Spells value.toList := by
  have hchange : ∀ s t, Change s t → s.WellTyped → t.WellTyped := by
    intro s t hst hs
    exact hs.change hst
  obtain ⟨hrun, hend⟩ := invariant_run Scopes.Every.initial hchange texts
  exact ⟨fun n => ⟨outcome_run texts n, hrun n⟩, hend⟩

end LineCheck
