import LineCheck.Proofs.Calls
import LineCheck.Proofs.Globals

/-!
The registered methods.

Methods are registered one after the other, and a registration that fails leaves
the table as it is (`registry`). It succeeds if the name is new and the
parameters can be admitted (`MethodTable.register_eq_ok_iff_admissible`), so the
table holds the accepted registrations in their order, each as it was declared
(`registered_registry`). The survey registers a method where a line outside all
blocks opens one (`registrations`), so at every stage of a run the methods stand
in the order of their lines (`registers_run`).
-/

namespace LineCheck

/-! ## Registrations -/

/-- The parameters of a method can be admitted: they have different names, and
    no initial values. -/
structure MethodHeader.Admissible (header : MethodHeader) : Prop where
  distinct : (header.params.map Parameter.name).Nodup
  plain : ∀ p ∈ header.params, p.initial = none

/-- A method is as a registration, a header and its line, declares it. -/
structure Registered (entry : MethodHeader × Nat) (m : Method) : Prop where
  name : m.name = entry.1.name
  line : m.line = entry.2
  params : List.Forall₂ (fun p v => v.name = p.name ∧ v.ty = p.ty ∧ v.isFinal = p.isFinal ∧
    v.value = none) entry.1.params m.params
  distinct : (m.params.map Variable.name).Nodup
  plain : ∀ p ∈ entry.1.params, p.initial = none

/-- The method that a header at a line declares. -/
def MethodHeader.method (header : MethodHeader) (line : Nat) : Method :=
  ⟨header.name, header.params.map Parameter.toVariable, line⟩

theorem MethodHeader.Admissible.registered {header : MethodHeader} (h : header.Admissible)
    (line : Nat) : Registered (header, line) (header.method line) where
  name := rfl
  line := rfl
  params := by
    refine List.forall₂_map_right_iff.2 (List.forall₂_same.2 fun p _ => ?_)
    exact ⟨rfl, rfl, rfl, rfl⟩
  distinct := by
    rw [method, Parameter.map_name_toVariable]
    exact h.distinct
  plain := h.plain

namespace MethodTable

variable {t t' : MethodTable} {header : MethodHeader} {line : Nat}

/-- **A method is registered if its name is new and its parameters can be
    admitted.** -/
theorem register_eq_ok_iff_admissible :
    t.register header line = .ok t' ↔
      ((∀ m ∈ t.toList, m.name ≠ header.name) ∧ header.Admissible) ∧
        t' = t.push (header.method line) := by
  have hnew : t.get? header.name = none ↔ ∀ m ∈ t.toList, m.name ≠ header.name := by
    simp [get?_eq_none_iff]
  rw [register_eq_ok_iff, hnew]
  constructor
  · rintro ⟨hname, params, hparams, rfl⟩
    obtain ⟨rfl, hdistinct, -, hplain⟩ := Parameter.toVariables_eq_ok_iff.1 hparams
    exact ⟨⟨hname, hdistinct, hplain⟩, rfl⟩
  · rintro ⟨⟨hname, hdistinct, hplain⟩, rfl⟩
    refine ⟨hname, _, Parameter.toVariables_eq_ok_iff.2 ⟨rfl, hdistinct, ?_, hplain⟩, rfl⟩
    intro p _
    exact List.not_mem_nil

/-- A registration that succeeds makes the table longer. -/
theorem attempt_eq_self_iff :
    t.attempt (header, line) = t ↔ ∃ fault, t.register header line = .error fault := by
  rw [attempt]
  cases hr : t.register header line with
  | error fault => simp
  | ok t' =>
    obtain ⟨-, rfl⟩ := register_eq_ok_iff_admissible.1 hr
    simp only [reduceCtorEq, exists_false, iff_false]
    intro hpush
    have hlength := congrArg (·.toList.length) hpush
    simp [push] at hlength

/-- The registrations that succeed, of some that are made one after the other. -/
def accepted (t : MethodTable) : List (MethodHeader × Nat) → List (MethodHeader × Nat)
  | [] => []
  | entry :: entries =>
    match t.register entry.1 entry.2 with
    | .ok t' => entry :: accepted t' entries
    | .error _ => accepted t entries

theorem accepted_sublist (t : MethodTable) (entries : List (MethodHeader × Nat)) :
    (t.accepted entries).Sublist entries := by
  induction entries generalizing t with
  | nil => exact .slnil
  | cons entry entries ih =>
    rw [accepted]
    cases t.register entry.1 entry.2 with
    | ok t' => exact (ih t').cons_cons entry
    | error fault => exact (ih t).cons entry

/-- Each accepted registration adds its method behind the others, and nothing
    else does. -/
theorem exists_registered (t : MethodTable) (entries : List (MethodHeader × Nat)) :
    ∃ ms, (entries.foldl attempt t).toList = t.toList ++ ms ∧
      List.Forall₂ Registered (t.accepted entries) ms := by
  induction entries generalizing t with
  | nil => exact ⟨[], (List.append_nil _).symm, .nil⟩
  | cons entry entries ih =>
    rw [List.foldl_cons, attempt, accepted]
    cases hr : t.register entry.1 entry.2 with
    | error fault => exact ih t
    | ok t' =>
      obtain ⟨⟨-, hadmissible⟩, rfl⟩ := register_eq_ok_iff_admissible.1 hr
      obtain ⟨ms, hms, hregistered⟩ := ih (t.push (entry.1.method entry.2))
      refine ⟨entry.1.method entry.2 :: ms, ?_, .cons (hadmissible.registered entry.2) hregistered⟩
      rw [hms, push, List.append_assoc]
      rfl

end MethodTable

/-- **The table holds the accepted registrations**, in their order. -/
theorem registered_registry (entries : List (MethodHeader × Nat)) :
    List.Forall₂ Registered (MethodTable.empty.accepted entries) (registry entries).toList := by
  obtain ⟨ms, hms, hregistered⟩ := MethodTable.empty.exists_registered entries
  rw [registry, hms]
  exact hregistered

theorem registry_concat (entries : List (MethodHeader × Nat)) (entry : MethodHeader × Nat) :
    registry (entries ++ [entry]) = (registry entries).attempt entry :=
  List.foldl_append

/-- Methods that are registered at rising lines stand at rising lines. -/
theorem pairwise_line_registry {entries : List (MethodHeader × Nat)}
    (h : (entries.map Prod.snd).Pairwise (· < ·)) :
    ((registry entries).toList.map Method.line).Pairwise (· < ·) := by
  have hlines : (registry entries).toList.map Method.line =
      (MethodTable.empty.accepted entries).map Prod.snd := by
    have hregistered := registered_registry entries
    generalize MethodTable.empty.accepted entries = accepted at hregistered ⊢
    generalize (registry entries).toList = ms at hregistered ⊢
    induction hregistered with
    | nil => rfl
    | cons hm _ ih => rw [List.map_cons, List.map_cons, hm.line, ih]
  rw [hlines]
  exact h.sublist ((MethodTable.empty.accepted_sublist entries).map Prod.snd)

/-! ## The survey -/

/-- The registration that a line asks for, if it is the header of a method. -/
def Line.registration? (line : Line) : Option (MethodHeader × Nat) :=
  if line.isHeader then (MethodHeader.ofText? line.text).map fun header => (header, line.number)
  else none

/-- The registrations that some lines ask for. -/
def registrations (lines : List Line) : List (MethodHeader × Nat) :=
  lines.filterMap Line.registration?

theorem registrations_sublist (lines : List Line) :
    ((registrations lines).map Prod.snd).Sublist (lines.map Line.number) := by
  induction lines with
  | nil => exact .slnil
  | cons line lines ih =>
    rw [registrations, List.filterMap_cons]
    cases hline : line.registration? with
    | none => exact ih.cons line.number
    | some entry =>
      have hnumber : entry.2 = line.number := by
        unfold Line.registration? at hline
        split at hline
        · obtain ⟨header, -, rfl⟩ := Option.map_eq_some_iff.1 hline
          rfl
        · cases hline
      rw [List.map_cons, List.map_cons, hnumber]
      exact ih.cons_cons line.number

/-- The lines so far are numbered from one on, and the methods so far are those
    for which they ask. -/
structure Survey.Registers (found : Survey) : Prop where
  number : found.lines.map Line.number = List.range' 1 found.lines.length
  methods : found.methods = registry (registrations found.lines)

namespace Survey.Registers

theorem pairwise_line {found : Survey} (h : found.Registers) :
    (found.methods.toList.map Method.line).Pairwise (· < ·) := by
  have hnumbers : (found.lines.map Line.number).Pairwise (· < ·) := by
    rw [h.number]
    exact List.pairwise_lt_range'
  rw [h.methods]
  exact pairwise_line_registry (hnumbers.sublist (registrations_sublist found.lines))

variable {seen : List Line} {t : MethodTable}

theorem number_concat (h : Registers ⟨seen, t⟩) {line : Line}
    (hnumber : line.number = seen.length + 1) :
    (seen ++ [line]).map Line.number = List.range' 1 (seen ++ [line]).length := by
  rw [List.map_append, List.length_append, List.length_singleton, List.range'_concat, h.number,
    List.map_singleton, hnumber]
  simp [Nat.add_comm]

/-- A line that is no header leaves the methods. -/
theorem concat (h : Registers ⟨seen, t⟩) {line : Line} (hnumber : line.number = seen.length + 1)
    (hline : line.isHeader = false) : Registers ⟨seen ++ [line], t⟩ := by
  refine ⟨h.number_concat hnumber, ?_⟩
  rw [registrations, List.filterMap_append, ← registrations]
  simpa [Line.registration?, hline] using h.methods

/-- A header registers its method. -/
theorem concat_header (h : Registers ⟨seen, t⟩) {text : String} {header : MethodHeader}
    {t' : MethodTable} (htext : MethodHeader.ofText? text = some header)
    (ht' : t.register header (seen.length + 1) = .ok t') :
    Registers ⟨seen ++ [⟨seen.length + 1, text, 0, .blockOpen⟩], t'⟩ := by
  refine ⟨h.number_concat rfl, ?_⟩
  have hentry : registrations (seen ++ [⟨seen.length + 1, text, 0, .blockOpen⟩]) =
      registrations seen ++ [(header, seen.length + 1)] := by
    simp [registrations, Line.registration?, Line.isHeader, htext]
  have hmethods : t = registry (registrations seen) := h.methods
  rw [hentry, registry_concat, ← hmethods, MethodTable.attempt, ht']

theorem surveyed {p p' : Progress} (h : Registers ⟨seen, p.methods⟩) {text : String} {s s' : Scopes}
    {kind : LineKind} (hline : Surveyed (seen.length + 1) text p.methods s kind p.depth p' s') :
    Registers ⟨seen ++ [⟨seen.length + 1, text, p.depth, kind⟩], p'.methods⟩ := by
  obtain ⟨depth, methods⟩ := p
  cases hline with
  | method htext hr => exact h.concat_header htext hr
  | trivia hk | inside hk => exact h.concat rfl (by rcases hk with rfl | rfl <;> rfl)
  | declaration | opens | closes => exact h.concat rfl rfl

end Survey.Registers

/-! ## Runs -/

/-- What the survey has found at a stage, up to the end of the check. -/
def Stage.found? : Stage → Option Survey
  | surveying seen p _ => some ⟨seen, p.methods⟩
  | declaring _ _ _ _ next => next.found?
  | between found _ => some found
  | receiving w _ => some w.found
  | walking w _ _ _ => some w.found
  | done _ => none

/-- What the survey has found at a stage are lines and the methods for which
    they ask. -/
def Stage.Registers (stage : Stage) : Prop :=
  ∀ found ∈ stage.found?, found.Registers

theorem registers_done (verdict : Except Violation Summary) : (Stage.done verdict).Registers := by
  rintro found ⟨⟩

theorem registers_after {α : Type} {next : α → Stage} {r : EStateM.Result Violation Scopes α}
    (h : ∀ a s, r = .ok a s → (next a).Registers) : (Config.after next r).stage.Registers :=
  Config.after_elim (P := fun c => c.stage.Registers) h fun _ _ _ => registers_done _

theorem registers_stepSurvey {seen : List Line} {p : Progress}
    (h : Survey.Registers ⟨seen, p.methods⟩) (text : String) (rest : List String) (s : Scopes) :
    (stepSurvey seen p text rest s).stage.Registers := by
  unfold stepSurvey
  cases LineKind.ofText? text with
  | none => exact registers_done _
  | some kind =>
    dsimp only
    split
    · rintro found ⟨⟩
      exact h.concat rfl rfl
    · refine registers_after fun p' t hline => ?_
      rintro found ⟨⟩
      exact h.surveyed (surveyLine_eq_ok_iff.1 hline)

theorem WalkStep.found? {w : Walk} {line : Line} {lines : List Line} {nesting : Nat} {s : Scopes}
    {c : Config} (h : WalkStep w line lines nesting s c) :
    ∀ found ∈ c.stage.found?, found = w.found := by
  cases h with
  | passes | declares | assigns | opens | closes | ends =>
    rintro found ⟨⟩
    rfl
  | fails => rintro found ⟨⟩

theorem registers_step {c : Config} (h : c.stage.Registers) : (step c).stage.Registers := by
  obtain ⟨stage, s⟩ := c
  cases stage with
  | surveying seen p rest =>
    have hfound : Survey.Registers ⟨seen, p.methods⟩ := h _ rfl
    cases rest with
    | nil =>
      rw [step]
      dsimp only
      split
      · rintro found ⟨⟩
        exact hfound
      · exact registers_done _
    | cons text rest => exact registers_stepSurvey hfound text rest s
  | declaring line isFinal ty items next =>
    cases items with
    | nil => exact h
    | cons d ds => exact registers_after fun _ _ _ => h
  | between found ms =>
    cases ms with
    | nil => exact registers_done _
    | cons m ms => exact h
  | receiving w params =>
    cases params with
    | nil => exact h
    | cons param params => exact registers_after fun _ _ _ => h
  | walking w lines nesting returned =>
    cases lines with
    | nil => exact h
    | cons line lines =>
      intro found hfound
      rw [(walkStep_stepWalk w line lines nesting returned s).found? found hfound]
      exact h _ rfl
  | done verdict => exact registers_done verdict

/-- **At every stage the methods are those for which the lines so far ask.** -/
theorem registers_run (texts : List String) (n : Nat) : (run texts n).stage.Registers := by
  induction n with
  | zero =>
    rintro found ⟨⟩
    exact ⟨rfl, rfl⟩
  | succ n ih =>
    rw [run_succ]
    exact registers_step ih

/-- The numbers of the lines of a kind that stand outside all blocks. -/
def outsideNumbers (kind : LineKind) (texts : List String) : List Nat :=
  (texts.zipIdx.filter fun (text, k) => LineKind.ofText? text == some kind &&
    openings (texts.take k) == closings (texts.take k)).map fun (_, k) => k + 1

theorem SurveySpec.outsideNumbers_eq {texts : List String} {found : Survey}
    (h : SurveySpec 0 ⟨0, .empty⟩ texts found) (kind : LineKind) :
    outsideNumbers kind texts = (found.lines.filter (Line.isOutside kind)).map Line.number := by
  rw [outsideNumbers, h.filter_outside, ← map_fst_filter_zipIdx (Line.isOutside kind) found.lines,
    List.map_map, List.map_map]
  refine List.map_congr_left ?_
  rintro ⟨line, k⟩ hmem
  have hk : found.lines[k]? = some line :=
    List.mem_zipIdx_iff_getElem?.1 (List.mem_of_mem_filter hmem)
  have hnumber := h.number k line hk
  rw [Nat.zero_add] at hnumber
  exact hnumber.symm

/-! ## The table -/

/-- **The table of methods.** After any registrations, of which some may have
    failed, the methods have distinct names, and they are the accepted ones, in
    order, with the parameters that they declare: distinct names, the declared
    types, final or not as declared, and no values. A registration succeeds if
    its name is new, and its parameters have distinct names and no initial
    values; if it fails, and only then, the table stays as it is. The table of a
    check comes about in this way at every stage, with methods at rising lines,
    and after the survey these are the lines outside all blocks that open
    one. -/
theorem registry_holds_accepted (entries : List (MethodHeader × Nat)) (texts : List String) :
    ((registry entries).toList.map Method.name).Nodup ∧
    (MethodTable.empty.accepted entries).Sublist entries ∧
    List.Forall₂ Registered (MethodTable.empty.accepted entries) (registry entries).toList ∧
    (∀ header line, (∃ t, (registry entries).register header line = .ok t) ↔
      (∀ m ∈ (registry entries).toList, m.name ≠ header.name) ∧
      (∀ p ∈ header.params, p.initial = none) ∧ (header.params.map Parameter.name).Nodup) ∧
    (∀ header line, registry (entries ++ [(header, line)]) = registry entries ↔
      ∃ fault, (registry entries).register header line = .error fault) ∧
    (∀ n found, (run texts n).stage.found? = some found →
      found.methods = registry (registrations found.lines) ∧
      (found.methods.toList.map Method.line).Pairwise (· < ·)) ∧
    ∀ found g, surveyAll texts .initial = .ok found g →
      found.methods.toList.map Method.line = headers found.lines ∧
      headers found.lines = outsideNumbers .blockOpen texts := by
  refine ⟨distinct_registry entries, MethodTable.empty.accepted_sublist entries,
    registered_registry entries, ?_, ?_, ?_, ?_⟩
  · intro header line
    constructor
    · rintro ⟨t, ht⟩
      obtain ⟨⟨hname, hdistinct, hplain⟩, -⟩ := MethodTable.register_eq_ok_iff_admissible.1 ht
      exact ⟨hname, hplain, hdistinct⟩
    · rintro ⟨hname, hplain, hdistinct⟩
      exact ⟨_, MethodTable.register_eq_ok_iff_admissible.2 ⟨⟨hname, hdistinct, hplain⟩, rfl⟩⟩
  · intro header line
    rw [registry_concat]
    exact MethodTable.attempt_eq_self_iff
  · intro n found hfound
    have hregisters := registers_run texts n found hfound
    exact ⟨hregisters.methods, hregisters.pairwise_line⟩
  · intro found g hfound
    have hspec := surveySpec hfound
    refine ⟨hspec.map_line, ?_⟩
    rw [hspec.outsideNumbers_eq]
    rfl

/-- A name is taken only by a registration that succeeds: the first one of `g`
    has an initial value. In a check, the block inside the first method is no
    method. -/
theorem registry_of_failed_registrations :
    registry [(⟨"f", [⟨false, .int, "a", none⟩]⟩, 1),
        (⟨"g", [⟨false, .int, "b", some (.var "a")⟩]⟩, 2),
        (⟨"g", [⟨true, .char, "c", none⟩]⟩, 3), (⟨"f", []⟩, 4)] =
      ⟨[⟨"f", [⟨"a", .int, none, false⟩], 1⟩, ⟨"g", [⟨"c", .char, none, true⟩], 3⟩]⟩ ∧
    registry (registrations [⟨1, "void f(int a) \x7b", 0, .blockOpen⟩,
        ⟨2, "if (a) \x7b", 1, .blockOpen⟩, ⟨3, "\x7d", 2, .blockClose⟩,
        ⟨4, "return;", 1, .returnLine⟩, ⟨5, "\x7d", 1, .blockClose⟩,
        ⟨6, "void g() \x7b", 0, .blockOpen⟩]) =
      ⟨[⟨"f", [⟨"a", .int, none, false⟩], 1⟩, ⟨"g", [], 6⟩]⟩ ∧
    outsideNumbers .blockOpen ["void f(int a) \x7b", "if (a) \x7b", "\x7d", "return;", "\x7d",
      "void g() \x7b", "return;", "\x7d"] = [1, 6] := by
  obtain ⟨-, -, -, -, hfails, hrun, hsurvey⟩ := registry_holds_accepted
    [(⟨"f", [⟨false, .int, "a", none⟩]⟩, 1), (⟨"g", [⟨false, .int, "b", some (.var "a")⟩]⟩, 2),
      (⟨"g", [⟨true, .char, "c", none⟩]⟩, 3)]
    ["void f(int a) \x7b", "if (a) \x7b", "\x7d", "return;", "\x7d",
      "void g() \x7b", "return;", "\x7d"]
  refine ⟨?_, ?_, ?_⟩
  · have hsame := (hfails ⟨"f", []⟩ 4).2 ⟨.duplicateMethod "f", by decide +kernel⟩
    exact hsame.trans (by decide +kernel)
  · exact (hrun 6 ⟨_, _⟩ (by decide +kernel)).1.symm
  · obtain ⟨hlines, hheaders⟩ := hsurvey
      ⟨[⟨1, "void f(int a) \x7b", 0, .blockOpen⟩, ⟨2, "if (a) \x7b", 1, .blockOpen⟩,
        ⟨3, "\x7d", 2, .blockClose⟩, ⟨4, "return;", 1, .returnLine⟩, ⟨5, "\x7d", 1, .blockClose⟩,
        ⟨6, "void g() \x7b", 0, .blockOpen⟩, ⟨7, "return;", 1, .returnLine⟩,
        ⟨8, "\x7d", 1, .blockClose⟩], ⟨[⟨"f", [⟨"a", .int, none, false⟩], 1⟩, ⟨"g", [], 6⟩]⟩⟩
      .initial (by decide +kernel)
    exact hheaders.symm.trans hlines.symm

end LineCheck
