import LineCheck.Proofs.Nesting

/-!
The lines that the walks visit.

Where the survey succeeds, the walks visit the lines inside methods, in order
and none of them twice (`follows_run`); a check that succeeds has visited them
all. At each of them the count of the walk, the depth that the survey found and
the number of open scopes agree (`Config.Agrees`).
-/

namespace LineCheck

/-! ## Visited lines -/

/-- The lines inside a method, among some lines. -/
def inner (lines : List Line) : List Line :=
  lines.filter fun line => 1 ≤ line.depth

/-- The line that a walk visits in the next step. -/
def Config.visit? (c : Config) : Option Line :=
  match c.stage with
  | .walking _ (line :: _) _ _ => some line
  | _ => none

/-- The lines that the walks of a run visit in its first steps. -/
def visits (texts : List String) (n : Nat) : List Line :=
  (List.range n).filterMap fun k => (run texts k).visit?

theorem visits_succ (texts : List String) (n : Nat) :
    visits texts (n + 1) = visits texts n ++ (run texts n).visit?.toList := by
  rw [visits, List.range_succ, List.filterMap_append]
  cases h : (run texts n).visit? <;> simp [visits, h]

/-- The lines inside a method are still to be visited exactly among `lines`.
    After a failure nothing is said. -/
def Stage.Awaits (lines : List Line) : Stage → Prop
  | surveying .. => True
  | declaring _ _ _ _ next => next.Awaits lines
  | between _ ms => Nested 0 lines ∧ ms.map Method.line = headers lines
  | receiving w _ =>
    lines = w.found.lines.drop w.method.line ∧ w.later.map Method.line = headers lines
  | walking w rest _ _ => lines = rest ∧ w.later.map Method.line = headers lines
  | done (.ok _) => inner lines = []
  | done (.error _) => True

/-- Outside all blocks, there are no lines inside a method up to the next header. -/
theorem Nested.exists_header {lines : List Line} (h : Nested 0 lines) :
    (headers lines = [] ∧ inner lines = []) ∨
      ∃ before header after, lines = before ++ header :: after ∧ inner lines = inner after ∧
        headers lines = header.number :: headers after := by
  induction lines with
  | nil => exact .inl ⟨rfl, rfl⟩
  | cons line lines ih =>
    cases h with
    | plain ho hc hd h =>
      have hheaders : headers (line :: lines) = headers lines := by
        simp [headers, Line.isHeader, ho]
      have hinner : inner (line :: lines) = inner lines := by simp [inner, hd]
      rw [hheaders, hinner]
      rcases ih h with hnone | ⟨before, header, after, rfl, hin, hhd⟩
      · exact .inl hnone
      · exact .inr ⟨line :: before, header, after, rfl, hin, hhd⟩
    | opens hk hd h =>
      exact .inr ⟨[], line, lines, rfl, by simp [inner, hd],
        by simp [headers, Line.isHeader, hk, hd]⟩

theorem awaits_after {α : Type} {lines : List Line} {next : α → Stage}
    {r : EStateM.Result Violation Scopes α} (h : ∀ a, (next a).Awaits lines) :
    (Config.after next r).stage.Awaits lines :=
  Config.after_elim (P := fun c => c.stage.Awaits lines) (fun a _ _ => h a) fun _ _ _ => trivial

theorem awaits_of_walkStep {found : Survey} {w : Walk} {line : Line} {lines : List Line}
    {nesting : Nat} {s : Scopes} (h : Walks found w (line :: lines) nesting s)
    (hlater : w.later.map Method.line = headers lines) {c : Config}
    (hstep : WalkStep w line lines nesting s c) : c.stage.Awaits lines := by
  cases hstep with
  | passes | declares | assigns | opens | closes => exact ⟨rfl, hlater⟩
  | ends hk hn =>
    subst hn
    exact ⟨h.nested.of_closes hk, hlater⟩
  | fails => trivial

/-- A step visits the first of the lines that are still to be visited, or none. -/
theorem awaits_step {texts : List String} {found : Survey}
    (hspec : SurveySpec 0 ⟨0, .empty⟩ texts found) {c : Config}
    (hlevel : c.stage.Level found c.scopes) {lines : List Line} (hlines : lines <:+ found.lines)
    (h : c.stage.Awaits lines) :
    ∃ rest, rest <:+ found.lines ∧ (step c).stage.Awaits rest ∧
      inner lines = c.visit?.toList ++ inner rest := by
  obtain ⟨stage, s⟩ := c
  cases stage with
  | surveying => exact hlevel.elim
  | declaring line isFinal ty items next =>
    refine ⟨lines, hlines, ?_, rfl⟩
    cases items with
    | nil => exact h
    | cons d ds => exact awaits_after fun _ => h
  | between f ms =>
    obtain ⟨rfl, -, -⟩ := hlevel
    obtain ⟨hnested, hms⟩ := h
    rcases hnested.exists_header with ⟨hnone, hinner⟩ | ⟨before, header, after, rfl, hinner, hhd⟩
    · obtain rfl : ms = [] := by simpa [hnone] using hms
      exact ⟨lines, hlines, hinner, rfl⟩
    · cases ms with
      | nil => simp [hhd] at hms
      | cons m ms =>
        rw [hhd, List.map_cons, List.cons.injEq] at hms
        obtain ⟨hline, hlater⟩ := hms
        obtain ⟨pre, hpre⟩ := hlines
        have hsplit : (pre ++ before ++ [header]) ++ after = f.lines := by simp [← hpre]
        -- the header stands where its number says, so what follows it is the
        -- rest
        have hnumber := hspec.number (pre.length + before.length) header (by simp [← hpre])
        have hafter : after = f.lines.drop m.line := by
          rw [hline, hnumber, ← hsplit, List.drop_left']
          simp [Nat.add_assoc]
        exact ⟨after, ⟨_, hsplit⟩, ⟨hafter, hlater⟩, hinner⟩
  | receiving w params =>
    refine ⟨lines, hlines, ?_, rfl⟩
    cases params with
    | nil => exact h
    | cons param params => exact awaits_after fun _ => h
  | walking w rest nesting returned =>
    obtain ⟨rfl, hlater⟩ := h
    cases lines with
    | nil => exact ⟨[], hlines, ⟨.nil, hlater⟩, rfl⟩
    | cons line lines =>
      have hd : line.depth = nesting := hlevel.nested.depth_eq
      have hpos := hlevel.pos
      have hheaders : headers (line :: lines) = headers lines := by
        have : line.depth ≠ 0 := by omega
        simp [headers, Line.isHeader, this]
      refine ⟨lines, (List.suffix_cons line lines).trans hlines,
        awaits_of_walkStep hlevel (hheaders ▸ hlater)
          (walkStep_stepWalk w line lines nesting returned s), ?_⟩
      have : 1 ≤ line.depth := by omega
      simp [inner, Config.visit?, this]
  | done verdict => exact ⟨lines, hlines, h, rfl⟩

/-! ## The agreement of the passes -/

/-- What the two passes agree on at a point of a run whose survey gives `found`. -/
structure Config.Agrees (found : Survey) (c : Config) : Prop where
  /-- A parameter can always be declared. -/
  receives : ∀ w param params, c.stage = .receiving w (param :: params) →
    ∃ s, c.scopes.define param.received = .ok s
  /-- At a line that is visited, the count of the walk is the depth that the
      survey found, and there is a scope for every open block besides the global
      one. -/
  visits : ∀ w line lines nesting returned, c.stage = .walking w (line :: lines) nesting returned →
    nesting = line.depth ∧ c.scopes.toList.length = nesting + 1 ∧ 1 ≤ nesting
  /-- A walk does not run out of lines. -/
  not_exhausted : ∀ w nesting returned, c.stage ≠ .walking w [] nesting returned
  /-- A walk ends at the closing brace of its method. -/
  closes : ∀ w line lines nesting returned f ms,
    c.stage = .walking w (line :: lines) nesting returned → (step c).stage = .between f ms →
      nesting = 1 ∧ found.closing? w.method = some line

/-- A walk is left for the next method only by the brace that closes the method. -/
theorem WalkStep.eq_one_of_between {w : Walk} {line : Line} {lines : List Line} {nesting : Nat}
    {s : Scopes} {c : Config} (h : WalkStep w line lines nesting s c) {f : Survey}
    {ms : List Method} (hc : c.stage = .between f ms) : nesting = 1 ∧ line.kind = .blockClose := by
  cases h with
  | ends hk hn => exact ⟨hn, hk⟩
  | passes | declares | assigns | opens | closes | fails => cases hc

theorem agrees_of_level {found : Survey} {c : Config} (h : c.stage.Level found c.scopes) :
    c.Agrees found := by
  obtain ⟨stage, s⟩ := c
  refine ⟨?_, ?_, ?_, ?_⟩
  · rintro w param params rfl
    obtain ⟨-, -, -, -, hnodup⟩ := h
    refine ⟨_, Scopes.define_eq_ok_iff.2 ⟨Scope.get?_eq_none_iff.2 fun v hv heq => ?_, rfl⟩⟩
    rw [List.nodup_append] at hnodup
    exact hnodup.2.2 v.name (List.mem_map_of_mem hv) param.name (by simp) heq
  · rintro w line lines nesting returned rfl
    exact ⟨h.nested.depth_eq.symm, by rw [Scopes.length_toList, h.height], h.pos⟩
  · rintro w nesting returned rfl
    have := h.pos
    cases h.nested
    omega
  · rintro w line lines nesting returned f ms rfl hstep
    obtain ⟨rfl, hk⟩ := (walkStep_stepWalk w line lines nesting returned s).eq_one_of_between hstep
    refine ⟨rfl, ?_⟩
    rw [← h.closing]
    exact List.find?_cons_of_pos (by simp [Line.isClosing, hk, h.nested.depth_eq])

theorem agrees_of_surveys {found : Survey} {g : Scopes} {c : Config}
    (h : c.stage.Surveys found g c.scopes) : c.Agrees found := by
  obtain ⟨stage, s⟩ := c
  refine ⟨?_, ?_, ?_, ?_⟩
  · rintro w param params rfl
    exact h.elim
  · rintro w line lines nesting returned rfl
    exact h.elim
  · rintro w nesting returned rfl
    exact h.elim
  · rintro w line lines nesting returned f ms rfl
    exact h.elim

theorem stage_ended_of_checkLines_eq_ok {texts : List String} {summary : Summary}
    (h : checkLines texts = .ok summary) :
    (Config.ended (checkProgram texts .initial)).stage = .done (.ok summary) := by
  unfold checkLines at h
  cases hr : checkProgram texts .initial with
  | ok summary' s =>
    rw [hr] at h
    cases h
    rfl
  | error v s =>
    rw [hr] at h
    cases h

theorem visit?_of_surveys {found : Survey} {g : Scopes} {c : Config}
    (h : c.stage.Surveys found g c.scopes) : c.visit? = none := by
  obtain ⟨stage, s⟩ := c
  cases stage with
  | surveying | declaring => rfl
  | between | receiving | walking | done => exact h.elim

/-- What holds after some steps of a run whose survey gives `found`: the run is
    in the survey and has visited no line, or it is after the survey, in step,
    and has visited all lines inside methods before `lines`. -/
def Follows (texts : List String) (found : Survey) (g : Scopes) (n : Nat) (c : Config) : Prop :=
  (c.stage.Surveys found g c.scopes ∧ visits texts n = []) ∨
    (c.stage.Level found c.scopes ∧ ∃ lines, lines <:+ found.lines ∧ c.stage.Awaits lines ∧
      visits texts n ++ inner lines = inner found.lines)

theorem follows_run {texts : List String} {found : Survey} {g : Scopes}
    (h : surveyAll texts .initial = .ok found g) (n : Nat) :
    Follows texts found g n (run texts n) := by
  have hspec : SurveySpec 0 ⟨0, .empty⟩ texts found := surveySpec h
  induction n with
  | zero => exact .inl ⟨⟨found, h, rfl⟩, rfl⟩
  | succ n ih =>
    rw [run_succ, Follows, visits_succ]
    rcases ih with ⟨hsurveys, hnone⟩ | ⟨hlevel, lines, hlines, hawaits, hvisits⟩
    · rw [visit?_of_surveys hsurveys, hnone]
      rcases surveys_step hsurveys with hstep | hstep
      · exact .inl ⟨hstep, rfl⟩
      · rw [hstep]
        exact .inr ⟨⟨rfl, fun m hm => hm, currentId_survey h⟩, found.lines, List.suffix_refl _,
          ⟨hspec.nested, hspec.map_line⟩, rfl⟩
    · obtain ⟨rest, hrest, hawaits', hinner⟩ := awaits_step hspec hlevel hlines hawaits
      refine .inr ⟨level_step hspec hlevel, rest, hrest, hawaits', ?_⟩
      rw [List.append_assoc, ← hinner, hvisits]

theorem level_iterate {texts : List String} {found : Survey}
    (hspec : SurveySpec 0 ⟨0, .empty⟩ texts found) {c : Config}
    (h : c.stage.Level found c.scopes) (n : Nat) :
    (step^[n] c).stage.Level found (step^[n] c).scopes := by
  induction n with
  | zero => exact h
  | succ n ih =>
    rw [Function.iterate_succ_apply']
    exact level_step hspec ih

/-- **The two passes agree on how blocks nest, and no line escapes.** Where the
    survey of some lines succeeds, it gives each line the number of blocks that
    are open before it. In the run, and in walks through any of the methods from
    any global scope, both counts agree with the number of scopes, parameters
    can be received, and a walk ends at the closing brace of its method. If the
    lines are accepted, the walks have visited the lines inside methods, each of
    them once and in order. -/
theorem depth_eq_nesting_and_visits_eq_inner {texts : List String} {found : Survey} {g : Scopes}
    (h : surveyAll texts .initial = .ok found g) :
    (found.lines.map Line.text = texts ∧ ∀ k line, found.lines[k]? = some line →
      line.number = k + 1 ∧
      line.depth + (texts.take k).countP (LineKind.ofText? · == some .blockClose) =
        (texts.take k).countP (LineKind.ofText? · == some .blockOpen)) ∧
    (∀ n, (run texts n).outcome = checkProgram texts .initial ∧ (run texts n).Agrees found) ∧
    (∀ ms, (∀ m ∈ ms, m ∈ found.methods.toList) → ∀ scope n,
      (step^[n] ⟨.between found ms, ⟨scope, []⟩⟩).outcome = found.finish ms ⟨scope, []⟩ ∧
      (step^[n] ⟨.between found ms, ⟨scope, []⟩⟩).Agrees found) ∧
    ∀ summary, checkLines texts = .ok summary →
      ∃ N, ∀ n, N ≤ n → (run texts n).stage = .done (.ok summary) ∧
        visits texts n = found.lines.filter fun line => 1 ≤ line.depth := by
  have hspec : SurveySpec 0 ⟨0, .empty⟩ texts found := surveySpec h
  refine ⟨⟨hspec.text, fun k line hk => ⟨?_, ?_⟩⟩, fun n => ⟨outcome_run texts n, ?_⟩, ?_, ?_⟩
  · simpa using hspec.number k line hk
  · rw [hspec.countP_take, hspec.countP_take]
    simpa using hspec.nested.depth_add_closes hk
  · rcases follows_run h n with ⟨hsurveys, -⟩ | ⟨hlevel, -⟩
    · exact agrees_of_surveys hsurveys
    · exact agrees_of_level hlevel
  · intro ms hms scope n
    have hlevel : (Stage.between found ms).Level found ⟨scope, []⟩ := ⟨rfl, hms, rfl⟩
    exact ⟨outcome_iterate _ n, agrees_of_level (level_iterate (c := ⟨_, _⟩) hspec hlevel n)⟩
  · intro summary hok
    obtain ⟨N, hN⟩ := exists_run_eq_ended texts
    refine ⟨N, fun n hn => ?_⟩
    have hdone : (run texts n).stage = .done (.ok summary) := by
      rw [hN n hn]
      exact stage_ended_of_checkLines_eq_ok hok
    refine ⟨hdone, ?_⟩
    rcases follows_run h n with ⟨hsurveys, -⟩ | ⟨-, lines, -, hawaits, hvisits⟩
    · rw [hdone] at hsurveys
      exact hsurveys.elim
    · rw [hdone] at hawaits
      rwa [show inner lines = [] from hawaits, List.append_nil] at hvisits

theorem visits_of_method_with_block :
    ∃ N, ∀ n, N ≤ n →
      visits ["int a = 1;", "void f() \x7b", "if (a) \x7b", "\x7d", "return;", "\x7d"] n =
        [⟨3, "if (a) \x7b", 1, .blockOpen⟩, ⟨4, "\x7d", 2, .blockClose⟩,
          ⟨5, "return;", 1, .returnLine⟩, ⟨6, "\x7d", 1, .blockClose⟩] := by
  have hsurvey : surveyAll
      ["int a = 1;", "void f() \x7b", "if (a) \x7b", "\x7d", "return;", "\x7d"] .initial =
      .ok ⟨[⟨1, "int a = 1;", 0, .statement⟩, ⟨2, "void f() \x7b", 0, .blockOpen⟩,
        ⟨3, "if (a) \x7b", 1, .blockOpen⟩, ⟨4, "\x7d", 2, .blockClose⟩,
        ⟨5, "return;", 1, .returnLine⟩, ⟨6, "\x7d", 1, .blockClose⟩], ⟨[⟨"f", [], 2⟩]⟩⟩
        ⟨⟨.global, [⟨"a", .int, some "1", false⟩]⟩, []⟩ := by decide +kernel
  obtain ⟨N, hN⟩ :=
    (depth_eq_nesting_and_visits_eq_inner hsurvey).2.2.2 ⟨6, 1, 1⟩ (by decide +kernel)
  exact ⟨N, fun n hn => (hN n hn).2⟩

end LineCheck
