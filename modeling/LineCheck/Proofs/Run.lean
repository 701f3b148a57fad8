import Mathlib.Logic.Function.Iterate
import LineCheck.Proofs.Checking

/-!
The run of a check, step by step.

A check stands at a `Stage`, in the open scopes; `step` goes on from there and
changes the scopes at most once: it declares one variable, enters or leaves one
scope, or carries out one assignment. `run` is the check of some lines after a
number of steps.

* `walkStep_stepWalk`: `WalkStep` lists all that a line can do in a walk;
* `outcome_run`: at every step, what is left to be done gives the result of the
  whole check;
* `exists_run_eq_ended`: a run ends, with the verdict and the scopes of the
  check.
-/

namespace LineCheck

/-! ## Stages -/

/-- A walk: the survey it goes by, the method it goes through, and the methods
    after it. -/
structure Walk where
  found : Survey
  method : Method
  later : List Method
deriving DecidableEq, Repr

/-- Where a check stands. -/
inductive Stage where
  /-- In the survey, after the lines `seen` and before the texts `rest`. -/
  | surveying (seen : List Line) (p : Progress) (rest : List String)
  /-- In a declaration at a line, before the variables `items`. -/
  | declaring (line : Nat) (isFinal : Bool) (ty : Ty) (items : List Declarator) (next : Stage)
  /-- After the survey, before the walks through `ms`. -/
  | between (found : Survey) (ms : List Method)
  /-- In a walk, before the parameters `params` are received. -/
  | receiving (w : Walk) (params : List Variable)
  /-- In a walk, before the lines `lines`. -/
  | walking (w : Walk) (lines : List Line) (nesting : Nat) (returned : Bool)
  /-- At the end. -/
  | done (verdict : Except Violation Summary)

/-- A stage in the open scopes. -/
structure Config where
  stage : Stage
  scopes : Scopes

namespace Config

/-- The stage after some work: `next` if it succeeded, or else the end. -/
def after {α : Type} (next : α → Stage) : EStateM.Result Violation Scopes α → Config
  | .ok a s => ⟨next a, s⟩
  | .error v s => ⟨.done (.error v), s⟩

theorem after_elim {α : Type} {P : Config → Prop} {next : α → Stage}
    {r : EStateM.Result Violation Scopes α} (hok : ∀ a s, r = .ok a s → P ⟨next a, s⟩)
    (herror : ∀ v s, r = .error v s → P ⟨.done (.error v), s⟩) : P (after next r) := by
  cases r with
  | ok a s => exact hok a s rfl
  | error v s => exact herror v s rfl

/-- The end of a check with this result. -/
def ended (r : EStateM.Result Violation Scopes Summary) : Config :=
  after (fun summary => .done (.ok summary)) r

end Config

/-! ## Steps -/

/-- Surveys one line. A global declaration is left to be carried out. -/
def stepSurvey (seen : List Line) (p : Progress) (text : String) (rest : List String)
    (s : Scopes) : Config :=
  match LineKind.ofText? text with
  | none => ⟨.done (.error ⟨seen.length + 1, .illegalLine⟩), s⟩
  | some kind =>
    let seen' := seen ++ [⟨seen.length + 1, text, p.depth, kind⟩]
    match kind, p.depth, Statement.ofText? text with
    | .statement, 0, some (.declaration d) =>
      ⟨.declaring (seen.length + 1) d.isFinal d.ty d.items (.surveying seen' p rest), s⟩
    | _, _, _ =>
      .after (.surveying seen' · rest)
        (surveyLine (seen.length + 1) text p.methods kind p.depth s)

/-- Walks through one line. A declaration is left to be carried out. -/
def stepWalk (w : Walk) (line : Line) (lines : List Line) (nesting : Nat) (returned : Bool)
    (s : Scopes) : Config :=
  match line.kind with
  | .comment | .blank => ⟨.walking w lines nesting returned, s⟩
  | .returnLine => ⟨.walking w lines nesting (returned || line.depth == 1), s⟩
  | .statement =>
    match Statement.ofText? line.text with
    | some (.declaration d) =>
      ⟨.declaring line.number d.isFinal d.ty d.items (.walking w lines nesting false), s⟩
    | _ => .after (fun _ => .walking w lines nesting false) (checkStatement w.found.methods line s)
  | .blockOpen => .after (fun _ => .walking w lines (nesting + 1) false) (checkBlock line s)
  | .blockClose =>
    if nesting = 1 ∧ returned = false then
      ⟨.done (.error ⟨line.number, .missingReturn w.method.name⟩), s⟩
    else if nesting = 1 then ⟨.between w.found w.later, s.leave⟩
    else ⟨.walking w lines (nesting - 1) returned, s.leave⟩

/-- One step of a check. -/
def step (c : Config) : Config :=
  match c.stage with
  | .surveying seen p [] =>
    if p.depth = 0 then ⟨.between ⟨seen, p.methods⟩ p.methods.toList, c.scopes⟩
    else ⟨.done (.error ⟨seen.length, .unbalancedBraces⟩), c.scopes⟩
  | .surveying seen p (text :: rest) => stepSurvey seen p text rest c.scopes
  | .declaring _ _ _ [] next => ⟨next, c.scopes⟩
  | .declaring line isFinal ty (d :: ds) next =>
    .after (fun _ => .declaring line isFinal ty ds next)
      ((Resolving.update (Scopes.declareItem isFinal ty d)).atLine line c.scopes)
  | .between found [] =>
    ⟨.done (.ok ⟨found.lines.length, found.methods.size, c.scopes.global.vars.length⟩), c.scopes⟩
  | .between found (m :: ms) => ⟨.receiving ⟨found, m, ms⟩ m.params, c.scopes.enter .method⟩
  | .receiving w [] => ⟨.walking w (w.found.lines.drop w.method.line) 1 false, c.scopes⟩
  | .receiving w (param :: params) =>
    .after (fun _ => .receiving w params)
      ((Resolving.update (·.define param.received)).atLine w.method.line c.scopes)
  | .walking w [] _ _ => ⟨.between w.found w.later, c.scopes⟩
  | .walking w (line :: lines) nesting returned => stepWalk w line lines nesting returned c.scopes
  | .done verdict => ⟨.done verdict, c.scopes⟩

/-- The check of some lines before its first step. -/
def start (texts : List String) : Config :=
  ⟨.surveying [] ⟨0, .empty⟩ texts, .initial⟩

/-- The check of some lines after a number of steps. -/
def run (texts : List String) (n : Nat) : Config :=
  step^[n] (start texts)

/-! ## What a line does in a walk -/

/-- What a line can do in a walk. -/
inductive WalkStep (w : Walk) (line : Line) (lines : List Line) (nesting : Nat) (s : Scopes) :
    Config → Prop
  /-- The line changes nothing. -/
  | passes {returned : Bool} (ho : line.kind ≠ .blockOpen) (hc : line.kind ≠ .blockClose) :
    WalkStep w line lines nesting s ⟨.walking w lines nesting returned, s⟩
  /-- The line is a declaration, which is left to be carried out. -/
  | declares {d : Declaration} (hk : line.kind = .statement)
    (ht : Statement.ofText? line.text = some (.declaration d)) :
    WalkStep w line lines nesting s
      ⟨.declaring line.number d.isFinal d.ty d.items (.walking w lines nesting false), s⟩
  /-- The line is an assignment, which is carried out. -/
  | assigns {a : Assignment} {t : Scopes} (hk : line.kind = .statement)
    (ht : Statement.ofText? line.text = some (.assignment a)) (h : s.assign a = .ok t) :
    WalkStep w line lines nesting s ⟨.walking w lines nesting false, t⟩
  | opens (hk : line.kind = .blockOpen) :
    WalkStep w line lines nesting s ⟨.walking w lines (nesting + 1) false, s.enter .block⟩
  | closes {returned : Bool} (hk : line.kind = .blockClose) (hn : nesting ≠ 1) :
    WalkStep w line lines nesting s ⟨.walking w lines (nesting - 1) returned, s.leave⟩
  /-- The line closes the method. -/
  | ends (hk : line.kind = .blockClose) (hn : nesting = 1) :
    WalkStep w line lines nesting s ⟨.between w.found w.later, s.leave⟩
  | fails {v : Violation} : WalkStep w line lines nesting s ⟨.done (.error v), s⟩

theorem walkStep_checkStatement {w : Walk} {line : Line} {lines : List Line} {nesting : Nat}
    (hk : line.kind = .statement) (hne : ∀ d, Statement.ofText? line.text ≠ some (.declaration d))
    (s : Scopes) : WalkStep w line lines nesting s
      (.after (fun _ => .walking w lines nesting false)
        (checkStatement w.found.methods line s)) := by
  unfold checkStatement
  rcases ht : Statement.ofText? line.text with _ | d | a | c
  · exact .fails
  · exact absurd ht (hne d)
  · refine Config.after_elim (P := WalkStep w line lines nesting s) ?_ ?_
    · intro u t hr
      exact .assigns hk ht (Resolving.update_eq_ok_iff.1 (atLine_eq_ok_iff.1 hr))
    · intro v t hr
      obtain ⟨-, rfl⟩ := Resolving.update_eq_error_iff.1 (atLine_eq_error_iff.1 hr).2
      exact .fails
  · refine Config.after_elim (P := WalkStep w line lines nesting s) ?_ ?_
    · intro u t hr
      obtain ⟨-, rfl⟩ := Resolving.require_eq_ok_iff.1 (atLine_eq_ok_iff.1 hr)
      exact .passes (by simp [hk]) (by simp [hk])
    · intro v t hr
      obtain ⟨-, rfl⟩ := Resolving.require_eq_error_iff.1 (atLine_eq_error_iff.1 hr).2
      exact .fails

theorem walkStep_checkBlock {w : Walk} {line : Line} {lines : List Line} {nesting : Nat}
    (hk : line.kind = .blockOpen) (s : Scopes) : WalkStep w line lines nesting s
      (.after (fun _ => .walking w lines (nesting + 1) false) (checkBlock line s)) := by
  unfold checkBlock
  cases BlockHeader.ofText? line.text with
  | none => exact .fails
  | some header =>
    refine Config.after_elim (P := WalkStep w line lines nesting s) ?_ ?_
    · intro u t hr
      obtain ⟨u', t', hcond, henter⟩ := bind_eq_ok_iff.1 hr
      obtain ⟨-, rfl⟩ := Resolving.require_eq_ok_iff.1 (atLine_eq_ok_iff.1 hcond)
      cases henter
      exact .opens hk
    · intro v t hr
      rcases bind_eq_error_iff.1 hr with hcond | ⟨u', t', -, henter⟩
      · obtain ⟨-, rfl⟩ := Resolving.require_eq_error_iff.1 (atLine_eq_error_iff.1 hcond).2
        exact .fails
      · cases henter

/-- **A step of a walk does what its line can do.** -/
theorem walkStep_stepWalk (w : Walk) (line : Line) (lines : List Line) (nesting : Nat)
    (returned : Bool) (s : Scopes) :
    WalkStep w line lines nesting s (stepWalk w line lines nesting returned s) := by
  unfold stepWalk
  cases hk : line.kind with
  | comment | blank | returnLine => exact .passes (by simp [hk]) (by simp [hk])
  | statement =>
    dsimp only
    split
    · rename_i d ht
      exact .declares hk ht
    · rename_i hne
      exact walkStep_checkStatement hk hne s
  | blockOpen => exact walkStep_checkBlock hk s
  | blockClose =>
    dsimp only
    split
    · exact .fails
    · split
      · exact .ends hk ‹_›
      · exact .closes hk ‹_›

/-! ## What is left to be done -/

/-- What is left of a check when only methods are left, and no walk has begun. -/
def Survey.finish (found : Survey) (ms : List Method) : Checking Summary := do
  walkMethods found ms
  let scopes ← get
  return ⟨found.lines.length, found.methods.size, scopes.global.vars.length⟩

/-- What is left of a check at a stage. -/
def Stage.rest : Stage → Checking Summary
  | surveying seen p rest => do
    let found ← survey seen.length p rest
    Survey.finish ⟨seen ++ found.lines, found.methods⟩ found.methods.toList
  | declaring line isFinal ty items next => do
    (declareItems isFinal ty items).atLine line
    next.rest
  | between found ms => found.finish ms
  | receiving w params => do
    receive w.method.line params
    walk w.found.methods w.method.name (w.found.lines.drop w.method.line) 1 false
    w.found.finish w.later
  | walking w lines nesting returned => do
    walk w.found.methods w.method.name lines nesting returned
    w.found.finish w.later
  | done (.ok summary) => return summary
  | done (.error v) => throw v

/-- The result that a check comes to. -/
def Config.outcome (c : Config) : EStateM.Result Violation Scopes Summary :=
  c.stage.rest c.scopes

/-- The result after some work is that of the work followed by what comes next. -/
theorem outcome_after {α : Type} (next : α → Stage) (work : Checking α) (s : Scopes) :
    (Config.after next (work s)).outcome = (work >>= fun a => (next a).rest) s := by
  cases h : work s with
  | ok a t => rw [bind_of_ok h]; rfl
  | error v t => rw [bind_of_error h]; rfl

namespace Stage

theorem rest_declaring_cons (line : Nat) (isFinal : Bool) (ty : Ty) (d : Declarator)
    (ds : List Declarator) (next : Stage) :
    (declaring line isFinal ty (d :: ds) next).rest = (do
      (Resolving.update (Scopes.declareItem isFinal ty d)).atLine line
      (declaring line isFinal ty ds next).rest) := by
  simp only [rest, declareItems, atLine_bind, bind_assoc]

theorem rest_receiving_cons (w : Walk) (param : Variable) (params : List Variable) :
    (receiving w (param :: params)).rest = (do
      (Resolving.update (·.define param.received)).atLine w.method.line
      (receiving w params).rest) := by
  simp only [rest, receive, bind_assoc]

theorem rest_between_cons (found : Survey) (m : Method) (ms : List Method) :
    (between found (m :: ms)).rest = (do
      modify (·.enter .method)
      (receiving ⟨found, m, ms⟩ m.params).rest) := by
  simp only [rest, Survey.finish, walkMethods, walkMethod, bind_assoc]

theorem rest_surveying_cons (seen : List Line) (p : Progress) {text : String} {kind : LineKind}
    (hk : LineKind.ofText? text = some kind) (texts : List String) :
    (surveying seen p (text :: texts)).rest = (do
      let p' ← surveyLine (seen.length + 1) text p.methods kind p.depth
      (surveying (seen ++ [⟨seen.length + 1, text, p.depth, kind⟩]) p' texts).rest) := by
  simp only [rest, survey, hk, bind_assoc, pure_bind, List.length_append, List.length_singleton,
    List.append_assoc, List.singleton_append]

end Stage

theorem outcome_stepSurvey (seen : List Line) (p : Progress) (text : String) (rest : List String)
    (s : Scopes) :
    (stepSurvey seen p text rest s).outcome = (Stage.surveying seen p (text :: rest)).rest s := by
  obtain ⟨depth, methods⟩ := p
  unfold stepSurvey
  cases hk : LineKind.ofText? text with
  | none =>
    simp only [Config.outcome, Stage.rest, survey, hk, fail_bind]
    rfl
  | some kind =>
    rw [Stage.rest_surveying_cons seen _ hk]
    dsimp only
    split
    · rename_i hd
      simp only [surveyLine, globalStatement_declaration hd, bind_assoc, pure_bind]
      rfl
    · rw [outcome_after]

theorem outcome_stepWalk (w : Walk) (line : Line) (lines : List Line) (nesting : Nat)
    (returned : Bool) (s : Scopes) :
    (stepWalk w line lines nesting returned s).outcome =
      (Stage.walking w (line :: lines) nesting returned).rest s := by
  unfold stepWalk
  rw [Stage.rest, walk]
  cases line.kind with
  | comment | blank | returnLine => rfl
  | statement =>
    dsimp only
    split
    · rename_i d hd
      rw [checkStatement_declaration hd, bind_assoc]
      rfl
    · rw [outcome_after, bind_assoc]
      rfl
  | blockOpen =>
    dsimp only
    rw [outcome_after, bind_assoc]
    rfl
  | blockClose =>
    dsimp only
    split
    · rfl
    · split
      · simp only [bind_assoc, pure_bind]; rfl
      · rfl

/-- A step does not change the result. -/
theorem outcome_step (c : Config) : (step c).outcome = c.outcome := by
  obtain ⟨stage, s⟩ := c
  cases stage with
  | surveying seen p rest =>
    cases rest with
    | nil =>
      by_cases h : p.depth = 0
      · simp [step, h, Config.outcome, Stage.rest, survey]
      · simp [step, h, Config.outcome, Stage.rest, survey]
        rfl
    | cons text rest => exact outcome_stepSurvey seen p text rest s
  | declaring line isFinal ty items next =>
    cases items with
    | nil => rfl
    | cons d ds =>
      rw [step, outcome_after, ← Stage.rest_declaring_cons]
      rfl
  | between found ms =>
    cases ms with
    | nil => rfl
    | cons m ms =>
      rw [Config.outcome, Config.outcome, Stage.rest_between_cons]
      rfl
  | receiving w params =>
    cases params with
    | nil => rfl
    | cons param params =>
      rw [step, outcome_after, ← Stage.rest_receiving_cons]
      rfl
  | walking w lines nesting returned =>
    cases lines with
    | nil => rfl
    | cons line lines => exact outcome_stepWalk w line lines nesting returned s
  | done verdict => rfl

/-! ## Runs -/

theorem run_succ (texts : List String) (n : Nat) : run texts (n + 1) = step (run texts n) :=
  Function.iterate_succ_apply' step n (start texts)

/-- Steps do not change the result. -/
theorem outcome_iterate (c : Config) (n : Nat) : (step^[n] c).outcome = c.outcome := by
  induction n with
  | zero => rfl
  | succ n ih => rw [Function.iterate_succ_apply', outcome_step, ih]

/-- At every step of a run, what is left to be done gives the result of the check. -/
theorem outcome_run (texts : List String) (n : Nat) :
    (run texts n).outcome = checkProgram texts .initial :=
  outcome_iterate (start texts) n

/-- The steps from a configuration lead to an end. -/
def Ends (c : Config) : Prop :=
  ∃ n verdict, (step^[n] c).stage = .done verdict

theorem ends_of_step {c : Config} (h : Ends (step c)) : Ends c := by
  obtain ⟨n, verdict, hn⟩ := h
  exact ⟨n + 1, verdict, hn⟩

theorem ends_done (verdict : Except Violation Summary) (s : Scopes) : Ends ⟨.done verdict, s⟩ :=
  ⟨0, verdict, rfl⟩

theorem ends_after {α : Type} {next : α → Stage} {r : EStateM.Result Violation Scopes α}
    (h : ∀ a s, Ends ⟨next a, s⟩) : Ends (.after next r) :=
  Config.after_elim (fun a s _ => h a s) fun _ s _ => ends_done _ s

theorem ends_declaring {next : Stage} (h : ∀ s, Ends ⟨next, s⟩) (line : Nat) (isFinal : Bool)
    (ty : Ty) (items : List Declarator) (s : Scopes) :
    Ends ⟨.declaring line isFinal ty items next, s⟩ := by
  induction items generalizing s with
  | nil => exact ends_of_step (h s)
  | cons d ds ih => exact ends_of_step (ends_after fun _ t => ih t)

theorem ends_walking {w : Walk} (h : ∀ s, Ends ⟨.between w.found w.later, s⟩) (lines : List Line)
    (nesting : Nat) (returned : Bool) (s : Scopes) :
    Ends ⟨.walking w lines nesting returned, s⟩ := by
  induction lines generalizing nesting returned s with
  | nil => exact ends_of_step (h s)
  | cons line lines ih =>
    refine ends_of_step ?_
    have hend : ∀ c, WalkStep w line lines nesting s c → Ends c := by
      intro c hc
      cases hc with
      | passes | assigns | opens | closes => exact ih _ _ _
      | declares => exact ends_declaring (fun t => ih _ _ t) _ _ _ _ s
      | ends => exact h _
      | fails => exact ends_done _ s
    exact hend _ (walkStep_stepWalk w line lines nesting returned s)

theorem ends_between (found : Survey) (ms : List Method) (s : Scopes) :
    Ends ⟨.between found ms, s⟩ := by
  induction ms generalizing s with
  | nil => exact ends_of_step (ends_done _ s)
  | cons m ms ih =>
    have hrec : ∀ params t, Ends ⟨.receiving ⟨found, m, ms⟩ params, t⟩ := by
      intro params
      induction params with
      | nil => exact fun t => ends_of_step (ends_walking ih _ _ _ t)
      | cons param params ihp => exact fun t => ends_of_step (ends_after fun _ t' => ihp t')
    exact ends_of_step (hrec _ _)

theorem ends_surveying (texts : List String) (seen : List Line) (p : Progress) (s : Scopes) :
    Ends ⟨.surveying seen p texts, s⟩ := by
  induction texts generalizing seen p s with
  | nil =>
    refine ends_of_step ?_
    rw [step]
    dsimp only
    split
    · exact ends_between _ _ s
    · exact ends_done _ s
  | cons text texts ih =>
    refine ends_of_step ?_
    rw [step]
    dsimp only
    unfold stepSurvey
    cases LineKind.ofText? text with
    | none => exact ends_done _ s
    | some kind =>
      dsimp only
      split
      · exact ends_declaring (fun t => ih _ _ t) _ _ _ _ s
      · exact ends_after fun p' t => ih _ p' t

theorem eq_ended_outcome {c : Config} {verdict : Except Violation Summary}
    (h : c.stage = .done verdict) : c = .ended c.outcome := by
  obtain ⟨stage, s⟩ := c
  cases h
  cases verdict <;> rfl

theorem step_ended (r : EStateM.Result Violation Scopes Summary) :
    step (.ended r) = .ended r := by
  cases r <;> rfl

/-- **Every run ends**, with the verdict of the check, in the scopes that the
    check leaves. -/
theorem exists_run_eq_ended (texts : List String) :
    ∃ N, ∀ n, N ≤ n → run texts n = .ended (checkProgram texts .initial) := by
  obtain ⟨N, verdict, hN⟩ := ends_surveying texts [] ⟨0, .empty⟩ .initial
  refine ⟨N, fun n hn => ?_⟩
  induction hn with
  | refl =>
    rw [← outcome_run texts N]
    exact eq_ended_outcome hN
  | step _ ih => rw [run_succ, ih, step_ended]

end LineCheck
