import LineCheck.Proofs.Run
import LineCheck.Proofs.Spelling

/-!
What a step of a check does to the open scopes.

A step makes at most one change (`change_step`): it opens or closes a scope, or
it adds or sets one variable, whose value comes from a parameter or from an
operand of a statement. So a property of the scopes that the changes keep holds
in every run (`invariant_run`).
-/

namespace LineCheck

/-! ## Changes -/

/-- The changes that a step can make. The operands of which variables get their
    values are those of statements that were read, so they are spelled as they
    should be. -/
inductive Change (s : Scopes) : Scopes → Prop
  | same : Change s s
  | enter (kind : ScopeKind) : Change s (s.enter kind)
  | leave : Change s s.leave
  | receive {v : Variable} {t : Scopes} (h : s.define v.received = .ok t) : Change s t
  | declare {isFinal : Bool} {ty : Ty} {d : Declarator} {t : Scopes} (hd : d.IsProper)
    (h : s.declareItem isFinal ty d = .ok t) : Change s t
  | assign {a : Assignment} {t : Scopes} (ha : a.value.IsProper) (h : s.assign a = .ok t) :
    Change s t

/-- The scopes that some work leaves, whether it succeeds or fails. -/
def scopesAfter {ε α : Type} : EStateM.Result ε Scopes α → Scopes
  | .ok _ s => s
  | .error _ s => s

theorem scopes_after {α : Type} (next : α → Stage) (r : EStateM.Result Violation Scopes α) :
    (Config.after next r).scopes = scopesAfter r := by
  cases r <;> rfl

theorem scopesAfter_atLine {α : Type} (line : Nat) (work : Resolving α) (s : Scopes) :
    scopesAfter (work.atLine line s) = scopesAfter (work s) := by
  unfold Resolving.atLine
  cases work s <;> rfl

theorem change_update {f : Scopes → Except Fault Scopes} {s : Scopes}
    (h : ∀ t, f s = .ok t → Change s t) : Change s (scopesAfter (Resolving.update f s)) := by
  unfold Resolving.update
  cases hf : f s with
  | ok t => exact h t hf
  | error fault => exact .same

/-- In the survey, only a declaration changes the scopes. -/
theorem scopesAfter_surveyLine {line : Nat} {text : String} {methods : MethodTable}
    {kind : LineKind} {depth : Nat} (h : ∀ d, kind = .statement → depth = 0 →
      Statement.ofText? text ≠ some (.declaration d)) (s : Scopes) :
    scopesAfter (surveyLine line text methods kind depth s) = s := by
  cases kind with
  | comment | blank | returnLine | blockClose => cases depth <;> rfl
  | statement =>
    cases depth with
    | zero =>
      rw [surveyLine, globalStatement]
      rcases hst : Statement.ofText? text with _ | d | a | c
      · rfl
      · exact absurd hst (h d rfl rfl)
      · rfl
      · rfl
    | succ depth => rfl
  | blockOpen =>
    cases depth with
    | zero =>
      rw [surveyLine, globalBlock]
      cases MethodHeader.ofText? text with
      | none => rfl
      | some header =>
        dsimp only
        cases methods.register header line with
        | ok methods' => rfl
        | error fault => rfl
    | succ depth => rfl

/-! ## Steps -/

/-- The operands of the variables that are still to be declared are spelled as
    they should be. -/
def Stage.IsProper : Stage → Prop
  | declaring _ _ _ items next => (∀ item ∈ items, item.IsProper) ∧ next.IsProper
  | _ => True

theorem isProper_after {α : Type} {next : α → Stage} {r : EStateM.Result Violation Scopes α}
    (h : ∀ a, (next a).IsProper) : (Config.after next r).stage.IsProper :=
  Config.after_elim (P := fun c => c.stage.IsProper) (fun a _ _ => h a) fun _ _ _ => trivial

theorem change_stepSurvey (seen : List Line) (p : Progress) (text : String) (rest : List String)
    (s : Scopes) :
    Change s (stepSurvey seen p text rest s).scopes ∧
      (stepSurvey seen p text rest s).stage.IsProper := by
  unfold stepSurvey
  cases LineKind.ofText? text with
  | none => exact ⟨.same, trivial⟩
  | some kind =>
    dsimp only
    split
    · rename_i d hst
      exact ⟨.same, Statement.isProper_of_ofText? hst, trivial⟩
    · rename_i hne
      refine ⟨?_, isProper_after fun _ => trivial⟩
      rw [scopes_after, scopesAfter_surveyLine fun d hk hd hst => hne d hk hd hst]
      exact .same

theorem WalkStep.change {w : Walk} {line : Line} {lines : List Line} {nesting : Nat} {s : Scopes}
    {c : Config} (h : WalkStep w line lines nesting s c) :
    Change s c.scopes ∧ c.stage.IsProper := by
  cases h with
  | passes | fails => exact ⟨.same, trivial⟩
  | declares hk ht => exact ⟨.same, Statement.isProper_of_ofText? ht, trivial⟩
  | assigns hk ht ha => exact ⟨.assign (Statement.isProper_of_ofText? ht) ha, trivial⟩
  | opens => exact ⟨.enter .block, trivial⟩
  | closes | ends => exact ⟨.leave, trivial⟩

/-- **A step makes at most one change of the scopes.** -/
theorem change_step {c : Config} (h : c.stage.IsProper) :
    Change c.scopes (step c).scopes ∧ (step c).stage.IsProper := by
  obtain ⟨stage, s⟩ := c
  cases stage with
  | surveying seen p rest =>
    cases rest with
    | nil =>
      simp only [step]
      split
      · exact ⟨.same, trivial⟩
      · exact ⟨.same, trivial⟩
    | cons text rest => exact change_stepSurvey seen p text rest s
  | declaring line isFinal ty items next =>
    obtain ⟨hitems, hnext⟩ := h
    cases items with
    | nil => exact ⟨.same, hnext⟩
    | cons d ds =>
      rw [List.forall_mem_cons] at hitems
      refine ⟨?_, isProper_after fun _ => ⟨hitems.2, hnext⟩⟩
      simp only [step, scopes_after, scopesAfter_atLine]
      exact change_update fun t ht => .declare hitems.1 ht
  | between found ms =>
    cases ms with
    | nil => exact ⟨.same, trivial⟩
    | cons m ms => exact ⟨.enter .method, trivial⟩
  | receiving w params =>
    cases params with
    | nil => exact ⟨.same, trivial⟩
    | cons param params =>
      refine ⟨?_, isProper_after fun _ => trivial⟩
      simp only [step, scopes_after, scopesAfter_atLine]
      exact change_update fun t ht => .receive ht
  | walking w lines nesting returned =>
    cases lines with
    | nil => exact ⟨.same, trivial⟩
    | cons line lines => exact (walkStep_stepWalk w line lines nesting returned s).change
  | done verdict => exact ⟨.same, trivial⟩

/-! ## Runs -/

theorem isProper_run (texts : List String) (n : Nat) : (run texts n).stage.IsProper := by
  induction n with
  | zero => trivial
  | succ n ih =>
    rw [run_succ]
    exact (change_step ih).2

/-- The scopes of a run change from step to step by single changes. -/
theorem change_run (texts : List String) (n : Nat) :
    Change (run texts n).scopes (run texts (n + 1)).scopes := by
  rw [run_succ]
  exact (change_step (isProper_run texts n)).1

/-- **What every change keeps holds in every run**, up to the scopes that the
    check leaves. -/
theorem invariant_run {P : Scopes → Prop} (hinit : P .initial)
    (hchange : ∀ s t, Change s t → P s → P t) (texts : List String) :
    (∀ n, P (run texts n).scopes) ∧ P (scopesAfter (checkProgram texts .initial)) := by
  have hrun : ∀ n, P (run texts n).scopes := by
    intro n
    induction n with
    | zero => exact hinit
    | succ n ih => exact hchange _ _ (change_run texts n) ih
  refine ⟨hrun, ?_⟩
  obtain ⟨N, hN⟩ := exists_run_eq_ended texts
  have hend := hrun N
  rwa [hN N (Nat.le_refl N), Config.ended, scopes_after] at hend

end LineCheck
