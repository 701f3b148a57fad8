import LineCheck.Proofs.Run
import LineCheck.Proofs.Scopes
import LineCheck.Proofs.Survey

/-!
The two passes agree on how blocks nest.

The survey counts the open blocks before each line (`Line.depth`), and a walk
counts them again. `Nested` says that the depths of some lines follow from their
kinds. It holds of what the survey finds (`surveySpec`), and it is what keeps
both counters and the number of open scopes in step (`Stage.Level`,
`level_step`).
-/

namespace LineCheck

/-! ## Depths -/

/-- The depths of lines follow from their kinds: from a number of open blocks
    on, a header opens one and a brace closes one, and at the end none is
    open. -/
inductive Nested : Nat → List Line → Prop
  | nil : Nested 0 []
  | plain {d : Nat} {line : Line} {lines : List Line} (ho : line.kind ≠ .blockOpen)
    (hc : line.kind ≠ .blockClose) (hd : line.depth = d) (h : Nested d lines) :
    Nested d (line :: lines)
  | opens {d : Nat} {line : Line} {lines : List Line} (hk : line.kind = .blockOpen)
    (hd : line.depth = d) (h : Nested (d + 1) lines) : Nested d (line :: lines)
  | closes {d : Nat} {line : Line} {lines : List Line} (hk : line.kind = .blockClose)
    (hd : line.depth = d + 1) (h : Nested d lines) : Nested (d + 1) (line :: lines)

namespace Nested

theorem depth_eq {d : Nat} {line : Line} {lines : List Line} (h : Nested d (line :: lines)) :
    line.depth = d := by
  cases h <;> assumption

theorem of_plain {d : Nat} {line : Line} {lines : List Line} (h : Nested d (line :: lines))
    (ho : line.kind ≠ .blockOpen) (hc : line.kind ≠ .blockClose) : Nested d lines := by
  cases h with
  | plain _ _ _ h => exact h
  | opens hk => exact absurd hk ho
  | closes hk => exact absurd hk hc

theorem of_opens {d : Nat} {line : Line} {lines : List Line} (h : Nested d (line :: lines))
    (hk : line.kind = .blockOpen) : Nested (d + 1) lines := by
  cases h with
  | plain ho => exact absurd hk ho
  | opens _ _ h => exact h
  | closes hc => simp [hk] at hc

theorem of_closes {d : Nat} {line : Line} {lines : List Line} (h : Nested (d + 1) (line :: lines))
    (hk : line.kind = .blockClose) : Nested d lines := by
  cases h with
  | plain _ hc => exact absurd hk hc
  | opens ho => simp [hk] at ho
  | closes _ _ h => exact h

/-- A depth is the number of headers before it less the number of closing braces. -/
theorem depth_add_closes {d : Nat} {lines : List Line} (h : Nested d lines) {k : Nat} {line : Line}
    (hk : lines[k]? = some line) :
    line.depth + (lines.take k).countP (·.kind == .blockClose) =
      d + (lines.take k).countP (·.kind == .blockOpen) := by
  induction h generalizing k with
  | nil => simp at hk
  | @plain d first lines ho hc hd _ ih =>
    cases k with
    | zero => simp at hk; subst hk; simp [hd]
    | succ k => simpa [ho, hc] using ih hk
  | @opens d first lines ho hd _ ih =>
    cases k with
    | zero => simp at hk; subst hk; simp [hd]
    | succ k =>
      have := ih hk
      simp only [List.take_succ_cons, List.countP_cons, ho]
      simp
      omega
  | @closes d first lines hc hd _ ih =>
    cases k with
    | zero => simp at hk; subst hk; simp [hd]
    | succ k =>
      have := ih hk
      simp only [List.take_succ_cons, List.countP_cons, hc]
      simp
      omega

/-- The lines from some line on are nested from its depth on. -/
theorem drop {d : Nat} {lines : List Line} (h : Nested d lines) {k : Nat} {line : Line}
    (hk : lines[k]? = some line) : Nested line.depth (lines.drop k) := by
  induction k generalizing d lines with
  | zero =>
    cases lines with
    | nil => simp at hk
    | cons first lines =>
      obtain rfl : first = line := by simpa using hk
      rw [h.depth_eq]
      exact h
  | succ k ih =>
    cases h with
    | nil => simp at hk
    | plain _ _ _ h | opens _ _ h | closes _ _ h => exact ih h hk

end Nested

/-! ## What the survey finds -/

/-- Whether a line is the header of a method. -/
def Line.isHeader (line : Line) : Bool :=
  line.kind == .blockOpen && line.depth == 0

/-- The numbers of the method headers among some lines. -/
def headers (lines : List Line) : List Nat :=
  (lines.filter Line.isHeader).map Line.number

/-- What a survey finds, where `count` lines and the progress `p` come before
    the texts. -/
structure SurveySpec (count : Nat) (p : Progress) (texts : List String) (found : Survey) :
    Prop where
  text : found.lines.map Line.text = texts
  number : ∀ k line, found.lines[k]? = some line → line.number = count + k + 1
  kind : ∀ line ∈ found.lines, LineKind.ofText? line.text = some line.kind
  nested : Nested p.depth found.lines
  methods : ∃ ms, found.methods.toList = p.methods.toList ++ ms ∧
    ms.map Method.line = headers found.lines ∧ ∀ m ∈ ms, (m.params.map Variable.name).Nodup

namespace Surveyed

variable {number : Nat} {text : String} {s s' : Scopes} {kind : LineKind} {p p' : Progress}

/-- A line keeps the depths in step with the kinds. -/
theorem nested_cons (h : Surveyed number text p.methods s kind p.depth p' s') {lines : List Line}
    (hlines : Nested p'.depth lines) :
    Nested p.depth (⟨number, text, p.depth, kind⟩ :: lines) := by
  obtain ⟨depth, methods⟩ := p
  cases h with
  | trivia hk | inside hk => rcases hk with rfl | rfl <;> exact .plain nofun nofun rfl hlines
  | declaration => exact .plain nofun nofun rfl hlines
  | method | opens => exact .opens rfl rfl hlines
  | closes => exact .closes rfl rfl hlines

/-- A line registers the method of which it is the header, if it is one, and
    nothing else. -/
theorem exists_methods (h : Surveyed number text p.methods s kind p.depth p' s')
    (lines : List Line) :
    ∃ ms, p'.methods.toList = p.methods.toList ++ ms ∧
      headers (⟨number, text, p.depth, kind⟩ :: lines) = ms.map Method.line ++ headers lines ∧
      ∀ m ∈ ms, (m.params.map Variable.name).Nodup := by
  obtain ⟨depth, methods⟩ := p
  cases h with
  | method _ hr =>
    obtain ⟨-, params, hp, rfl⟩ := MethodTable.register_eq_ok_iff.1 hr
    refine ⟨[⟨_, params, number⟩], rfl, by simp [headers, Line.isHeader], ?_⟩
    intro m hm
    obtain rfl := List.mem_singleton.1 hm
    obtain ⟨rfl, hnodup, -⟩ := Parameter.toVariables_eq_ok_iff.1 hp
    rwa [Parameter.map_name_toVariable]
  | trivia hk | inside hk =>
    refine ⟨[], by simp, ?_, by simp⟩
    rcases hk with rfl | rfl <;> simp [headers, Line.isHeader]
  | declaration | opens | closes => exact ⟨[], by simp, by simp [headers, Line.isHeader], by simp⟩

end Surveyed

theorem surveySpec {count : Nat} {p : Progress} {texts : List String} {s s' : Scopes}
    {found : Survey} (h : survey count p texts s = .ok found s') :
    SurveySpec count p texts found := by
  induction texts generalizing count p s found with
  | nil =>
    obtain ⟨hd, rfl, -⟩ := survey_nil_eq_ok_iff.1 h
    exact ⟨rfl, by simp, by simp, hd ▸ .nil, [], by simp, rfl, by simp⟩
  | cons text texts ih =>
    obtain ⟨kind, p', t, rest, hk, hline, hrest, rfl⟩ := survey_cons_eq_ok_iff.1 h
    obtain ⟨htext, hnumber, hkind, hnested, ms, hms, hheaders, hparams⟩ := ih hrest
    obtain ⟨new, hnew, hheader, hnewParams⟩ := hline.exists_methods rest.lines
    refine ⟨by simp [htext], ?_, ?_, hline.nested_cons hnested, new ++ ms, ?_, ?_, ?_⟩
    · intro k line hline
      cases k with
      | zero =>
        cases hline
        rfl
      | succ k =>
        have := hnumber k line hline
        omega
    · intro line hline
      rcases List.mem_cons.1 hline with rfl | hline
      · exact hk
      · exact hkind line hline
    · rw [hms, hnew, List.append_assoc]
    · rw [hheader, List.map_append, hheaders]
    · intro m hm
      rcases List.mem_append.1 hm with hm | hm
      · exact hnewParams m hm
      · exact hparams m hm

namespace SurveySpec

variable {texts : List String} {found : Survey}

/-- The methods of a whole program stand at its method headers. -/
theorem map_line (h : SurveySpec 0 ⟨0, .empty⟩ texts found) :
    found.methods.toList.map Method.line = headers found.lines := by
  obtain ⟨ms, hms, hheaders, -⟩ := h.methods
  rw [hms, ← hheaders]
  rfl

theorem nodup_params (h : SurveySpec 0 ⟨0, .empty⟩ texts found) {m : Method}
    (hm : m ∈ found.methods.toList) : (m.params.map Variable.name).Nodup := by
  obtain ⟨ms, hms, -, hparams⟩ := h.methods
  rw [hms] at hm
  exact hparams m hm

/-- The texts of a kind are counted by the lines of that kind. -/
theorem countP_take (h : SurveySpec 0 ⟨0, .empty⟩ texts found) (k : Nat) (kind : LineKind) :
    (texts.take k).countP (LineKind.ofText? · == some kind) =
      (found.lines.take k).countP (·.kind == kind) := by
  rw [← h.text, ← List.map_take, List.countP_map]
  refine List.countP_congr fun line hline => ?_
  simp [h.kind line (List.mem_of_mem_take hline)]

/-- A registered method stands at its header: a line outside all blocks that
    opens one, with as many blocks opened as closed before it. -/
theorem exists_header (h : SurveySpec 0 ⟨0, .empty⟩ texts found) {m : Method}
    (hm : m ∈ found.methods.toList) :
    ∃ k header, m.line = k + 1 ∧ found.lines[k]? = some header ∧ header.kind = .blockOpen ∧
      header.depth = 0 ∧ (found.lines.take k).countP (·.kind == .blockClose) =
        (found.lines.take k).countP (·.kind == .blockOpen) := by
  have hline : m.line ∈ headers found.lines := by
    rw [← h.map_line]
    exact List.mem_map_of_mem hm
  obtain ⟨header, hh, hnumber⟩ := List.mem_map.1 hline
  obtain ⟨hmem, hisHeader⟩ := List.mem_filter.1 hh
  obtain ⟨k, hk⟩ := List.mem_iff_getElem?.1 hmem
  have hn : header.number = k + 1 := by simpa using h.number k header hk
  obtain ⟨hkind, hdepth⟩ : header.kind = .blockOpen ∧ header.depth = 0 := by
    simpa [Line.isHeader] using hisHeader
  have hcount := h.nested.depth_add_closes hk
  rw [hdepth, Nat.zero_add, Nat.zero_add] at hcount
  exact ⟨k, header, by rw [← hnumber, hn], hk, hkind, hdepth, hcount⟩

/-- After the header of a registered method, one block is open. -/
theorem nested_drop (h : SurveySpec 0 ⟨0, .empty⟩ texts found) {m : Method}
    (hm : m ∈ found.methods.toList) : Nested 1 (found.lines.drop m.line) := by
  obtain ⟨k, header, hline, hk, hkind, hdepth, -⟩ := h.exists_header hm
  have hnested := h.nested.drop hk
  rw [List.drop_eq_getElem?_toList_append, hk, hdepth] at hnested
  rw [hline]
  exact hnested.of_opens hkind

end SurveySpec

theorem currentId_survey {count : Nat} {p : Progress} {texts : List String} {s s' : Scopes}
    {found : Survey} (h : survey count p texts s = .ok found s') : s'.currentId = s.currentId := by
  induction texts generalizing count p s found with
  | nil =>
    obtain ⟨-, -, rfl⟩ := survey_nil_eq_ok_iff.1 h
    rfl
  | cons text texts ih =>
    obtain ⟨kind, p', t, rest, -, hline, hrest, -⟩ := survey_cons_eq_ok_iff.1 h
    rw [ih hrest]
    obtain ⟨depth, methods⟩ := p
    cases hline with
    | declaration _ hd => exact currentId_declare hd
    | trivia | inside | method | opens | closes => rfl

/-! ## Walks -/

/-- Whether a line closes a method. -/
def Line.isClosing (line : Line) : Bool :=
  line.kind == .blockClose && line.depth == 1

/-- The closing brace of a method: the first after its header that leaves no
    block open. -/
def Survey.closing? (found : Survey) (m : Method) : Option Line :=
  (found.lines.drop m.line).find? Line.isClosing

/-- What holds in a walk before some lines: the lines are nested from `nesting`
    on, as many scopes are open besides the global one, and the closing brace of
    the method is still to come. -/
structure Walks (found : Survey) (w : Walk) (lines : List Line) (nesting : Nat) (s : Scopes) :
    Prop where
  survey_eq : w.found = found
  later : ∀ m ∈ w.later, m ∈ found.methods.toList
  nested : Nested nesting lines
  pos : 1 ≤ nesting
  height : s.currentId = nesting
  closing : lines.find? Line.isClosing = found.closing? w.method

/-- What holds at a stage after the survey. -/
def Stage.Level (found : Survey) (s : Scopes) : Stage → Prop
  | surveying .. => False
  | declaring _ _ _ _ next =>
    ∃ w lines nesting returned, next = walking w lines nesting returned ∧
      Walks found w lines nesting s
  | between f ms => f = found ∧ (∀ m ∈ ms, m ∈ found.methods.toList) ∧ s.currentId = 0
  | receiving w params => w.found = found ∧ w.method ∈ found.methods.toList ∧
    (∀ m ∈ w.later, m ∈ found.methods.toList) ∧ s.currentId = 1 ∧
    (s.current.vars.map Variable.name ++ params.map Variable.name).Nodup
  | walking w lines nesting _ => Walks found w lines nesting s
  | done _ => True

theorem level_after {α : Type} {found : Survey} {next : α → Stage}
    {r : EStateM.Result Violation Scopes α}
    (h : ∀ a s, r = .ok a s → (next a).Level found s) :
    (Config.after next r).stage.Level found (Config.after next r).scopes :=
  Config.after_elim (P := fun c => c.stage.Level found c.scopes) h fun _ _ _ => trivial

/-- A line that does not close the method leaves the closing brace to come. -/
theorem find?_isClosing_cons {line : Line} (h : line.kind = .blockClose → line.depth ≠ 1)
    (lines : List Line) :
    (line :: lines).find? Line.isClosing = lines.find? Line.isClosing := by
  refine List.find?_cons_of_neg ?_
  simpa [Line.isClosing] using h

theorem level_of_walkStep {found : Survey} {w : Walk} {line : Line} {lines : List Line}
    {nesting : Nat} {s : Scopes} (h : Walks found w (line :: lines) nesting s) {c : Config}
    (hstep : WalkStep w line lines nesting s c) : c.stage.Level found c.scopes := by
  have hd : line.depth = nesting := h.nested.depth_eq
  -- a line that is no brace keeps the level
  have hplain : line.kind ≠ .blockOpen → line.kind ≠ .blockClose → ∀ t : Scopes,
      t.currentId = s.currentId → Walks found w lines nesting t := by
    intro ho hc t ht
    exact { h with
      nested := h.nested.of_plain ho hc
      height := ht.trans h.height
      closing := by rw [← h.closing, find?_isClosing_cons fun hk => absurd hk hc] }
  cases hstep with
  | passes ho hc => exact hplain ho hc s rfl
  | declares hk _ =>
    exact ⟨w, lines, nesting, false, rfl, hplain (by simp [hk]) (by simp [hk]) s rfl⟩
  | assigns hk _ ha =>
    obtain ⟨v, value, -, -, hset⟩ := Scopes.assign_eq_ok_iff.1 ha
    exact hplain (by simp [hk]) (by simp [hk]) _ hset.currentId
  | opens hk =>
    exact { h with
      nested := h.nested.of_opens hk
      pos := Nat.le_add_left 1 nesting
      height := by rw [Scopes.currentId_enter, h.height]
      closing := by rw [← h.closing, find?_isClosing_cons (by simp [hk])] }
  | closes hk hn =>
    obtain ⟨outer, rfl⟩ : ∃ outer, nesting = outer + 1 := ⟨nesting - 1, by have := h.pos; omega⟩
    exact { h with
      nested := h.nested.of_closes hk
      pos := by omega
      height := by rw [Scopes.currentId_leave, h.height]
      closing := by rw [← h.closing, find?_isClosing_cons fun _ => by omega] }
  | ends hk hn => exact ⟨h.survey_eq, h.later, by rw [Scopes.currentId_leave, h.height, hn]⟩
  | fails => trivial

/-- A step after the survey keeps both counters and the number of scopes in step. -/
theorem level_step {found : Survey} {texts : List String}
    (hspec : SurveySpec 0 ⟨0, .empty⟩ texts found) {c : Config}
    (h : c.stage.Level found c.scopes) : (step c).stage.Level found (step c).scopes := by
  obtain ⟨stage, s⟩ := c
  cases stage with
  | surveying => exact h.elim
  | declaring line isFinal ty items next =>
    obtain ⟨w, lines, nesting, returned, rfl, hw⟩ := h
    cases items with
    | nil => exact hw
    | cons d ds =>
      refine level_after fun _ t ht => ?_
      obtain ⟨-, value, -, rfl⟩ := Scopes.declareItem_eq_ok_iff.1
        (Resolving.update_eq_ok_iff.1 (atLine_eq_ok_iff.1 ht))
      exact ⟨w, lines, nesting, returned, rfl, { hw with height := hw.height }⟩
  | between f ms =>
    obtain ⟨rfl, hms, hheight⟩ := h
    cases ms with
    | nil => trivial
    | cons m ms =>
      have hm : m ∈ f.methods.toList := hms m (by simp)
      refine ⟨rfl, hm, fun m' hm' => hms m' (by simp [hm']), by simp [step, hheight], ?_⟩
      simpa [step, Scopes.enter, Scope.empty] using hspec.nodup_params hm
  | receiving w params =>
    obtain ⟨hfound, hm, hlater, hheight, hnodup⟩ := h
    cases params with
    | nil =>
      refine ⟨hfound, hlater, ?_, Nat.le_refl 1, hheight, ?_⟩
      · rw [hfound]; exact hspec.nested_drop hm
      · rw [hfound]; rfl
    | cons param params =>
      refine level_after fun _ t ht => ?_
      obtain ⟨-, rfl⟩ := Scopes.define_eq_ok_iff.1
        (Resolving.update_eq_ok_iff.1 (atLine_eq_ok_iff.1 ht))
      refine ⟨hfound, hm, hlater, hheight, ?_⟩
      simpa [Scopes.push, Scope.push, Variable.received] using hnodup
  | walking w lines nesting returned =>
    cases lines with
    | nil =>
      have := h.pos
      cases h.nested
      omega
    | cons line lines =>
      exact level_of_walkStep h (walkStep_stepWalk w line lines nesting returned s)
  | done verdict => trivial

/-! ## The survey of a run -/

/-- What holds at a stage before the end of the survey: what is left of the
    survey completes the lines so far to `found`, and leaves the scopes `g`. -/
def Stage.Surveys (found : Survey) (g s : Scopes) : Stage → Prop
  | surveying seen p rest => ∃ more, survey seen.length p rest s = .ok more g ∧
    found = ⟨seen ++ more.lines, more.methods⟩
  | declaring _ isFinal ty items next =>
    ∃ t, declareItems isFinal ty items s = .ok () t ∧ next.Surveys found g t
  | _ => False

theorem surveys_stepSurvey {found : Survey} {g s : Scopes} {seen : List Line} {p : Progress}
    {text : String} {rest : List String}
    (h : (Stage.surveying seen p (text :: rest)).Surveys found g s) :
    (stepSurvey seen p text rest s).stage.Surveys found g
      (stepSurvey seen p text rest s).scopes := by
  obtain ⟨more, hmore, rfl⟩ := h
  obtain ⟨kind, p', t, later, hk, hline, hlater, rfl⟩ := survey_cons_eq_ok_iff.1 hmore
  have hrest : ∀ line : Line, (Stage.surveying (seen ++ [line]) p' rest).Surveys
      ⟨seen ++ line :: later.lines, later.methods⟩ g t :=
    fun line => ⟨later, by simpa using hlater, by simp⟩
  rw [stepSurvey, hk]
  dsimp only
  split
  · -- a global declaration, which the survey carries out at once
    rename_i hd hst
    obtain ⟨depth, methods⟩ := p
    cases hd
    have hline := surveyLine_eq_ok_iff.2 hline
    rw [surveyLine, globalStatement_declaration hst] at hline
    obtain ⟨u, t', hdecl, hp⟩ := bind_eq_ok_iff.1 hline
    cases hp
    exact ⟨_, atLine_eq_ok_iff.1 hdecl, hrest _⟩
  · rw [surveyLine_eq_ok_iff.2 hline]
    exact hrest _

/-- A step before the end of the survey goes on with the survey, or ends it. -/
theorem surveys_step {found : Survey} {g : Scopes} {c : Config}
    (h : c.stage.Surveys found g c.scopes) :
    (step c).stage.Surveys found g (step c).scopes ∨
      step c = ⟨.between found found.methods.toList, g⟩ := by
  obtain ⟨stage, s⟩ := c
  cases stage with
  | surveying seen p rest =>
    cases rest with
    | nil =>
      obtain ⟨more, hmore, rfl⟩ := h
      obtain ⟨hd, rfl, rfl⟩ := survey_nil_eq_ok_iff.1 hmore
      right
      simp [step, hd]
    | cons text rest => exact .inl (surveys_stepSurvey h)
  | declaring line isFinal ty items next =>
    left
    obtain ⟨t, hdecl, hnext⟩ := h
    cases items with
    | nil =>
      cases hdecl
      exact hnext
    | cons d ds =>
      obtain ⟨u, t', hd, hds⟩ := bind_eq_ok_iff.1 hdecl
      have hd' : (Resolving.update (Scopes.declareItem isFinal ty d)).atLine line s = .ok u t' :=
        atLine_eq_ok_iff.2 hd
      simp only [step]
      rw [hd']
      exact ⟨t, hds, hnext⟩
  | between | receiving | walking | done => exact h.elim

end LineCheck
