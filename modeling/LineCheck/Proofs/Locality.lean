import LineCheck.Proofs.Nesting
import LineCheck.Proofs.Renumbering

/-!
What a violation depends on.

A check stops at the first violation that it meets, and nothing behind the line
of a violation has a part in it, later global variables and method headers apart
(`checkLines_eq_error_of_shared_lines`). For the sweep this is because it reads
the lines in their order. The walks go through the methods in the order of their
headers, so that all methods before the one with the violation are closed before
its header (`Shared.walkMethod_eq`), and a walk that fails reads no further than
the line at which it fails (`walk_append_of_error`).
-/

namespace LineCheck

/-! ## The sweep -/

section Sweep

variable {texts : List String} {s s' : Scopes}

/-- A sweep that fails needs only the lines up to the one at which it fails. -/
theorem sweepAll_take_of_error {v : Violation} (h : sweepAll texts s = .error v s') :
    sweepAll (texts.take v.line) s = .error v s' := by
  obtain ⟨-, hle⟩ := line_of_sweep_eq_error h
  rw [← List.take_append_drop v.line texts, sweepAll_append] at h
  rcases bind_eq_error_iff.1 h with h | ⟨a, t, -, h⟩
  · exact h
  · rcases bind_eq_error_iff.1 h with h | ⟨b, t', -, h⟩
    · obtain ⟨hlt, -⟩ := line_of_sweep_eq_error h
      rw [List.length_take] at hlt
      omega
    · cases h

theorem sweepAll_append_of_error (more : List String) {v : Violation}
    (h : sweepAll texts s = .error v s') : sweepAll (texts ++ more) s = .error v s' := by
  rw [sweepAll_append, bind_of_error h]

/-- The line at which a sweep fails is the first that it cannot read. -/
theorem exists_sweepAll_take_of_error {v : Violation} (h : sweepAll texts s = .error v s') :
    ∃ sw t, sweepAll (texts.take (v.line - 1)) s = .ok sw t := by
  cases hsw : sweepAll (texts.take (v.line - 1)) s with
  | ok sw t => exact ⟨sw, t, rfl⟩
  | error v' t =>
    have happend := sweepAll_append_of_error (texts.drop (v.line - 1)) hsw
    rw [List.take_append_drop, h] at happend
    obtain ⟨rfl, rfl⟩ : v = v' ∧ s' = t := by simpa using happend
    obtain ⟨hlt, hle⟩ := line_of_sweep_eq_error hsw
    rw [List.length_take] at hle
    omega

/-- The first lines that a sweep gives are those that a sweep of the first texts
    gives. -/
theorem exists_sweepAll_take {sw : Sweep} (h : sweepAll texts s = .ok sw s') (k : Nat) :
    ∃ a t, sweepAll (texts.take k) s = .ok a t ∧ sw.lines.take k = a.lines := by
  have hlength := length_lines_of_sweep h
  rcases Nat.le_total k texts.length with hk | hk
  · rw [← List.take_append_drop k texts] at h
    obtain ⟨a, t, b, ha, -, rfl⟩ := sweepAll_append_eq_ok_iff.1 h
    refine ⟨a, t, ha, List.take_left' ?_⟩
    rw [length_lines_of_sweep ha, List.length_take]
    omega
  · rw [List.take_of_length_le hk]
    exact ⟨sw, s', h, List.take_of_length_le (by omega)⟩

end Sweep

/-! ## One walk -/

section Walk

variable {methods : MethodTable} {name : String} {s t : Scopes} {v : Violation}

/-- What a walk can do at a line, whatever follows: stop there, end the method,
    or go on. -/
theorem walk_cons_cases (methods : MethodTable) (name : String) (line : Line) (n : Nat)
    (returned : Bool) (s : Scopes) :
    (∃ v t, v.line = line.number ∧
      ∀ lines, walk methods name (line :: lines) n returned s = .error v t) ∨
    (∃ t, ∀ lines, walk methods name (line :: lines) n returned s = .ok () t) ∨
    ∃ n' returned' t, ∀ lines,
      walk methods name (line :: lines) n returned s = walk methods name lines n' returned' t := by
  simp only [walk]
  cases line.kind with
  | comment | blank => exact .inr (.inr ⟨n, returned, s, fun _ => rfl⟩)
  | returnLine => exact .inr (.inr ⟨n, _, s, fun _ => rfl⟩)
  | statement =>
    cases h : checkStatement methods line s with
    | error v t => exact .inl ⟨v, t, line_of_statementAt_eq_error h, fun _ => bind_of_error h⟩
    | ok u t => exact .inr (.inr ⟨n, false, t, fun _ => bind_of_ok h⟩)
  | blockOpen =>
    cases h : checkBlock line s with
    | error v t => exact .inl ⟨v, t, line_of_checkBlock_eq_error h, fun _ => bind_of_error h⟩
    | ok u t => exact .inr (.inr ⟨n + 1, false, t, fun _ => bind_of_ok h⟩)
  | blockClose =>
    by_cases hmissing : n = 1 ∧ returned = false
    · simp only [if_pos hmissing]
      exact .inl ⟨_, s, rfl, fun _ => rfl⟩
    · simp only [if_neg hmissing]
      by_cases hlast : n = 1
      · simp only [if_pos hlast]
        exact .inr (.inl ⟨s.leave, fun _ => rfl⟩)
      · simp only [if_neg hlast]
        exact .inr (.inr ⟨n - 1, returned, s.leave, fun _ => rfl⟩)

/-- A walk fails at one of its lines. -/
theorem exists_line_of_walk_eq_error {lines : List Line} {n : Nat} {returned : Bool}
    (h : walk methods name lines n returned s = .error v t) :
    ∃ line ∈ lines, v.line = line.number := by
  induction lines generalizing n returned s with
  | nil => cases h
  | cons line lines ih =>
    rcases walk_cons_cases methods name line n returned s with
      ⟨v', t', hline, hwalk⟩ | ⟨t', hwalk⟩ | ⟨n', returned', t', hwalk⟩
    · rw [hwalk] at h
      cases h
      exact ⟨line, by simp, hline⟩
    · rw [hwalk] at h
      cases h
    · rw [hwalk] at h
      obtain ⟨later, hmem, hline⟩ := ih h
      exact ⟨later, by simp [hmem], hline⟩

/-- A walk that fails reads no further than the line at which it fails. -/
theorem walk_append_of_error {xs ys : List Line} (hys : ∀ line ∈ ys, v.line < line.number) {n : Nat}
    {returned : Bool} (h : walk methods name (xs ++ ys) n returned s = .error v t)
    (ys' : List Line) : walk methods name (xs ++ ys') n returned s = .error v t := by
  induction xs generalizing n returned s with
  | nil =>
    obtain ⟨line, hmem, hline⟩ := exists_line_of_walk_eq_error h
    have hlt := hys line hmem
    omega
  | cons x xs ih =>
    rw [List.cons_append] at h ⊢
    rcases walk_cons_cases methods name x n returned s with ⟨v', t', -, hwalk⟩ | ⟨t', hwalk⟩ |
      ⟨n', returned', t', hwalk⟩
    · rw [hwalk] at h ⊢
      exact h
    · rw [hwalk] at h
      cases h
    · rw [hwalk] at h ⊢
      exact ih h

end Walk

/-! ## All walks -/

namespace SurveySpec

variable {texts : List String} {found : Survey}

/-- The methods are registered in the order of their headers. -/
theorem pairwise_line (h : SurveySpec 0 ⟨0, .empty⟩ texts found) :
    (found.methods.toList.map Method.line).Pairwise (· < ·) := by
  rw [h.map_line, headers, List.pairwise_map]
  refine List.Pairwise.filter _ (List.pairwise_iff_getElem.2 ?_)
  intro i j hi hj hij
  have hinumber := h.number i _ (List.getElem?_eq_getElem hi)
  have hjnumber := h.number j _ (List.getElem?_eq_getElem hj)
  omega

end SurveySpec

/-- A method fails at its header or behind it. -/
theorem le_line_of_walkMethod_eq_error {texts : List String} {found : Survey}
    (h : SurveySpec 0 ⟨0, .empty⟩ texts found) {m : Method} {s t : Scopes} {v : Violation}
    (hw : walkMethod found m s = .error v t) : m.line ≤ v.line := by
  rcases bind_eq_error_iff.1 hw with hw | ⟨u, t', -, hw⟩
  · cases hw
  · rcases bind_eq_error_iff.1 hw with hw | ⟨u', t'', -, hw⟩
    · exact Nat.le_of_eq (line_of_receive_eq_error hw).symm
    · obtain ⟨line, hmem, hline⟩ := exists_line_of_walk_eq_error hw
      obtain ⟨k, hk⟩ := List.mem_iff_getElem?.1 hmem
      rw [List.getElem?_drop] at hk
      have hnumber := h.number _ line hk
      omega

/-- Walks fail at one of the methods, after those before it. -/
theorem walkMethods_eq_error_iff {found : Survey} {ms : List Method} {s t : Scopes}
    {v : Violation} :
    walkMethods found ms s = .error v t ↔
      ∃ before m after s', ms = before ++ m :: after ∧ walkMethods found before s = .ok () s' ∧
        walkMethod found m s' = .error v t := by
  constructor
  · intro h
    induction ms generalizing s with
    | nil => cases h
    | cons m ms ih =>
      rcases bind_eq_error_iff.1 h with h | ⟨u, s', hm, h⟩
      · exact ⟨[], m, ms, s, rfl, rfl, h⟩
      · obtain ⟨before, m', after, s'', rfl, hbefore, hm'⟩ := ih h
        exact ⟨m :: before, m', after, s'', rfl, bind_eq_ok_iff.2 ⟨u, s', hm, hbefore⟩, hm'⟩
  · rintro ⟨before, m, after, s', rfl, hbefore, hm⟩
    induction before generalizing s with
    | nil =>
      cases hbefore
      exact bind_of_error hm
    | cons m' before ih =>
      obtain ⟨u, s'', hm', hbefore⟩ := bind_eq_ok_iff.1 hbefore
      exact bind_eq_error_iff.2 (.inr ⟨u, s'', hm', ih hbefore⟩)

/-- Two surveys that share their methods and their first `l` lines. -/
structure Shared (l : Nat) (found found' : Survey) : Prop where
  methods : found'.methods = found.methods
  lines : found'.lines.take l = found.lines.take l

namespace Shared

variable {l : Nat} {found found' : Survey} {texts : List String}

theorem mono (h : Shared l found found') {k : Nat} (hk : k ≤ l) : Shared k found found' := by
  refine ⟨h.methods, ?_⟩
  have hlines := congrArg (List.take k) h.lines
  rwa [List.take_take, List.take_take, Nat.min_eq_left hk] at hlines

/-- The lines behind a shared line. -/
theorem drop_eq (h : Shared l found found') {k : Nat} (hk : k ≤ l) :
    found.lines.drop k = (found.lines.take l).drop k ++ found.lines.drop l ∧
      found'.lines.drop k = (found.lines.take l).drop k ++ found'.lines.drop l := by
  have hsplit : ∀ lines : List Line, lines.drop k = (lines.take l).drop k ++ lines.drop l := by
    intro lines
    have hrest : lines.drop l = (lines.drop k).drop (l - k) := by
      rw [List.drop_drop, Nat.add_sub_cancel' hk]
    rw [List.drop_take, hrest, List.take_append_drop]
  exact ⟨hsplit found.lines, h.lines ▸ hsplit found'.lines⟩

/-- A method is walked through in the same way if another method begins behind
    it at a shared line. -/
theorem walkMethod_eq (h : Shared l found found') (hspec : SurveySpec 0 ⟨0, .empty⟩ texts found)
    {m m' : Method} (hm : m ∈ found.methods.toList) (hm' : m' ∈ found.methods.toList)
    (hlt : m.line < m'.line) (hle : m'.line ≤ l) : walkMethod found' m = walkMethod found m := by
  obtain ⟨k, header, hline, hk, hkind, -, hbefore⟩ := hspec.exists_header hm
  obtain ⟨k', -, hline', -, -, -, hall⟩ := hspec.exists_header hm'
  obtain ⟨hdrop, hdrop'⟩ := (h.mono (k := k') (by omega)).drop_eq (k := k + 1) (by omega)
  -- all blocks that are opened before the later header are closed before it
  have halike : Alike id 1 (found.lines.drop m.line) (found'.lines.drop (id m.line)) := by
    rw [id_eq, hline, hdrop, hdrop']
    have hk : (found.lines.take k')[k]? = some header := by
      rw [List.getElem?_take_of_lt (by omega), hk]
    have hbefore : ((found.lines.take k').take k).countP (·.kind == .blockClose) =
        ((found.lines.take k').take k).countP (·.kind == .blockOpen) := by
      rwa [List.take_take, Nat.min_eq_left (by omega)]
    have hheader := Alike.of_header (f := id) hk hkind hbefore hall (found.lines.drop k')
      (found'.lines.drop k')
    rwa [Line.renumber_id, List.map_id] at hheader
  have hwalk := walkMethod_of_alike (by rw [h.methods, MethodTable.renumber_id]) halike
  rwa [Checking.renumber_id, Method.renumber_id, id_eq] at hwalk

/-- A method that fails at a shared line does so in both surveys. -/
theorem walkMethod_of_error {v : Violation} (h : Shared v.line found found')
    (hspec : SurveySpec 0 ⟨0, .empty⟩ texts found) {m : Method} {s t : Scopes}
    (hw : walkMethod found m s = .error v t) : walkMethod found' m s = .error v t := by
  obtain ⟨hdrop, hdrop'⟩ := h.drop_eq (le_line_of_walkMethod_eq_error hspec hw)
  have hbehind : ∀ line ∈ found.lines.drop v.line, v.line < line.number := by
    intro line hmem
    obtain ⟨k, hk⟩ := List.mem_iff_getElem?.1 hmem
    rw [List.getElem?_drop] at hk
    have hnumber := hspec.number _ line hk
    omega
  unfold walkMethod at hw ⊢
  rw [h.methods]
  rcases bind_eq_error_iff.1 hw with hw | ⟨u, s', henter, hw⟩
  · cases hw
  · rw [bind_of_ok henter]
    rcases bind_eq_error_iff.1 hw with hw | ⟨u', s'', hreceive, hw⟩
    · exact bind_of_error hw
    · rw [bind_of_ok hreceive, hdrop']
      rw [hdrop] at hw
      exact walk_append_of_error hbehind hw _

/-- Walks that fail at a shared line do so in both surveys. -/
theorem walkMethods_of_error {v : Violation} (h : Shared v.line found found')
    (hspec : SurveySpec 0 ⟨0, .empty⟩ texts found) {s t : Scopes}
    (hw : walkMethods found found.methods.toList s = .error v t) :
    walkMethods found' found'.methods.toList s = .error v t := by
  obtain ⟨before, m, after, s', hms, hbefore, hm⟩ := walkMethods_eq_error_iff.1 hw
  have hsorted := hspec.pairwise_line
  rw [hms, List.map_append, List.map_cons, List.pairwise_append] at hsorted
  have hmem : m ∈ found.methods.toList := by simp [hms]
  have hle : m.line ≤ v.line := le_line_of_walkMethod_eq_error hspec hm
  have hsame : ∀ ms, (∀ m' ∈ ms, m' ∈ before) → walkMethods found' ms = walkMethods found ms := by
    intro ms hsub
    induction ms with
    | nil => rfl
    | cons m' ms ih =>
      have hm' : m' ∈ before := hsub m' (by simp)
      have hlt : m'.line < m.line := hsorted.2.2 _ (List.mem_map_of_mem hm') _ (by simp)
      have hmem' : m' ∈ found.methods.toList := by simp [hms, hm']
      rw [walkMethods, walkMethods, h.walkMethod_eq hspec hmem' hmem hlt hle,
        ih fun m'' hm'' => hsub m'' (by simp [hm''])]
  rw [h.methods]
  refine walkMethods_eq_error_iff.2 ⟨before, m, after, s', hms, ?_, h.walkMethod_of_error hspec hm⟩
  rw [hsame before fun _ hm' => hm', hbefore]

end Shared

/-! ## Verdicts -/

/-- The surveys of programs that share their first lines share them too. -/
theorem shared_of_surveyAll {texts texts' : List String} {found found' : Survey} {g g' : Scopes}
    (hs : surveyAll texts .initial = .ok found g) (hs' : surveyAll texts' .initial = .ok found' g')
    (hmethods : found'.methods = found.methods) {l : Nat} (hl : texts'.take l = texts.take l) :
    Shared l found found' := by
  obtain ⟨sw, hsw, -, rfl⟩ := surveyAll_eq_ok_iff.1 hs
  obtain ⟨sw', hsw', -, rfl⟩ := surveyAll_eq_ok_iff.1 hs'
  obtain ⟨a, t, ha, hlines⟩ := exists_sweepAll_take hsw l
  obtain ⟨a', t', ha', hlines'⟩ := exists_sweepAll_take hsw' l
  rw [hl, ha] at ha'
  cases ha'
  exact ⟨hmethods, hlines'.trans hlines.symm⟩

/-- After a survey only the global scope is open. -/
theorem eq_of_global_eq {texts texts' : List String} {found found' : Survey} {g g' : Scopes}
    (hs : surveyAll texts .initial = .ok found g) (hs' : surveyAll texts' .initial = .ok found' g')
    (h : g'.global = g.global) : g' = g := by
  have hg : g.currentId = 0 := currentId_survey hs
  have hg' : g'.currentId = 0 := currentId_survey hs'
  obtain ⟨current, outer⟩ := g
  obtain ⟨current', outer'⟩ := g'
  obtain rfl : outer = [] := List.length_eq_zero_iff.1 hg
  obtain rfl : outer' = [] := List.length_eq_zero_iff.1 hg'
  obtain rfl : current' = current := h
  rfl

theorem sweepAll_eq_error_of_surveyAll {texts : List String} {v : Violation} {s : Scopes}
    (h : surveyAll texts .initial = .error v s) (hopen : leftOpen texts = false) :
    sweepAll texts .initial = .error v s := by
  cases hsw : sweepAll texts .initial with
  | error v' t =>
    rw [surveyAll_of_sweepAll_eq_error hsw] at h
    cases h
    rfl
  | ok sw t =>
    have hdepth : sw.after.depth = 0 := bne_eq_false_iff_eq.1 (leftOpen_of_ok hsw ▸ hopen)
    rw [surveyAll_eq_ok_iff.2 ⟨sw, hsw, hdepth, rfl⟩] at h
    cases h

/-- After the survey, the violations are those of the walks. -/
theorem checkLines_eq_error_iff_of_surveyAll {texts : List String} {found : Survey} {g : Scopes}
    {v : Violation} (hs : surveyAll texts .initial = .ok found g) :
    checkLines texts = .error v ↔ ∃ t, walkMethods found found.methods.toList g = .error v t := by
  rw [checkLines_of_surveyAll hs]
  cases walkMethods found found.methods.toList g <;> simp

/-- **A violation depends on nothing behind its line, later global variables and
    methods apart.** Where the survey stops at a line, the line is the first
    that it cannot read, and every program with the same lines up to there has
    the same violation. Where the walks stop at a line, so does every program
    with the same lines up to there, the same global variables and the same
    methods. -/
theorem checkLines_eq_error_of_shared_lines (lines : List String) :
    (∀ v s, surveyAll lines .initial = .error v s → leftOpen lines = false →
      1 ≤ v.line ∧ v.line ≤ lines.length ∧
      (∃ sw t, sweepAll (lines.take (v.line - 1)) .initial = .ok sw t) ∧
      ∀ lines', lines'.take v.line = lines.take v.line → checkLines lines' = .error v) ∧
    ∀ lines' found found' g g' v, surveyAll lines .initial = .ok found g →
      surveyAll lines' .initial = .ok found' g' → g'.global = g.global →
      found'.methods = found.methods → checkLines lines = .error v →
      lines'.take v.line = lines.take v.line → checkLines lines' = .error v := by
  refine ⟨?_, ?_⟩
  · intro v s h hopen
    have hsw := sweepAll_eq_error_of_surveyAll h hopen
    obtain ⟨hlt, hle⟩ := line_of_sweep_eq_error hsw
    refine ⟨hlt, by omega, exists_sweepAll_take_of_error hsw, ?_⟩
    intro lines' hlines'
    have htake := sweepAll_take_of_error hsw
    rw [← hlines'] at htake
    have hsw' := sweepAll_append_of_error (lines'.drop v.line) htake
    rw [List.take_append_drop] at hsw'
    exact checkLines_of_surveyAll_eq_error (surveyAll_of_sweepAll_eq_error hsw')
  · intro lines' found found' g g' v hs hs' hg hmethods hv hlines
    obtain rfl := eq_of_global_eq hs hs' hg
    obtain ⟨t, hw⟩ := (checkLines_eq_error_iff_of_surveyAll hs).1 hv
    have hshared := shared_of_surveyAll hs hs' hmethods hlines
    have hw' := hshared.walkMethods_of_error (surveySpec hs) hw
    exact (checkLines_eq_error_iff_of_surveyAll hs').2 ⟨t, hw'⟩

/-- A global variable that is declared twice hides all violations behind it; an
    assignment in a method hides those in the rest of the method. -/
theorem first_violation_hides_later_lines :
    checkLines ["int a;", "int a;", "void f() \x7b"] = .error ⟨2, .duplicateVariable "a"⟩ ∧
    checkLines ["void f() \x7b", "b = 1;", "while (b) \x7b", "\x7d", "\x7d", "int c;"] =
      .error ⟨2, .undeclaredAssignment "b"⟩ := by
  have hsurvey : surveyAll ["int a;", "int a;"] .initial =
      .error ⟨2, .duplicateVariable "a"⟩ ⟨⟨.global, [⟨"a", .int, none, false⟩]⟩, []⟩ := by
    decide +kernel
  have hopen : leftOpen ["int a;", "int a;"] = false := by decide +kernel
  have hfound : surveyAll ["void f() \x7b", "b = 1;", "return;", "\x7d", "int c;"] .initial =
      .ok ⟨[⟨1, "void f() \x7b", 0, .blockOpen⟩, ⟨2, "b = 1;", 1, .statement⟩,
        ⟨3, "return;", 1, .returnLine⟩, ⟨4, "\x7d", 1, .blockClose⟩, ⟨5, "int c;", 0, .statement⟩],
        ⟨[⟨"f", [], 1⟩]⟩⟩ ⟨⟨.global, [⟨"c", .int, none, false⟩]⟩, []⟩ := by
    decide +kernel
  have hfound' : surveyAll ["void f() \x7b", "b = 1;", "while (b) \x7b", "\x7d", "\x7d", "int c;"]
      .initial =
      .ok ⟨[⟨1, "void f() \x7b", 0, .blockOpen⟩, ⟨2, "b = 1;", 1, .statement⟩,
        ⟨3, "while (b) \x7b", 1, .blockOpen⟩, ⟨4, "\x7d", 2, .blockClose⟩,
        ⟨5, "\x7d", 1, .blockClose⟩, ⟨6, "int c;", 0, .statement⟩],
        ⟨[⟨"f", [], 1⟩]⟩⟩ ⟨⟨.global, [⟨"c", .int, none, false⟩]⟩, []⟩ := by
    decide +kernel
  refine ⟨?_, ?_⟩
  · exact ((checkLines_eq_error_of_shared_lines _).1 _ _ hsurvey hopen).2.2.2 _ rfl
  · exact (checkLines_eq_error_of_shared_lines _).2 _ _ _ _ _ _ hfound hfound' rfl rfl
      (by decide +kernel) rfl

end LineCheck
