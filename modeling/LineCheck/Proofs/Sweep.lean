import LineCheck.Proofs.StopLine

/-!
The survey up to the end of the lines.

A `sweep` surveys lines without asking at the end whether blocks are open. So it
can be taken apart anywhere (`sweep_append`), and a survey is a sweep and that
question (`survey_eq_sweep`). A sweep that fails does so at the line that it
reads (`line_of_sweep_eq_error`); a sweep that succeeds counts the blocks that
its lines open and close (`depth_of_sweep`).
-/

namespace LineCheck

/-! ## Sweeps -/

/-- What a sweep gives: the lines, and how far the survey has come after them. -/
structure Sweep where
  lines : List Line
  after : Progress
deriving DecidableEq, Repr

/-- Surveys lines after `count` others. -/
def sweep (count : Nat) (p : Progress) : List String → Checking Sweep
  | [] => return ⟨[], p⟩
  | text :: texts =>
    match LineKind.ofText? text with
    | none => .fail (count + 1) .illegalLine
    | some kind => do
      let p' ← surveyLine (count + 1) text p.methods kind p.depth
      let rest ← sweep (count + 1) p' texts
      return ⟨⟨count + 1, text, p.depth, kind⟩ :: rest.lines, rest.after⟩

/-- Sweeps a whole program. -/
def sweepAll (texts : List String) : Checking Sweep :=
  sweep 0 ⟨0, .empty⟩ texts

/-- The end of a survey of `count` lines: no block may be open. -/
def Sweep.finish (count : Nat) (sw : Sweep) : Checking Survey :=
  if sw.after.depth = 0 then return ⟨sw.lines, sw.after.methods⟩ else .fail count .unbalancedBraces

/-- Whether the survey gets to the end of the lines, and there blocks are open. -/
def leftOpen (texts : List String) : Bool :=
  match sweepAll texts .initial with
  | .ok sw _ => sw.after.depth != 0
  | .error _ _ => false

theorem leftOpen_of_error {texts : List String} {v : Violation} {s : Scopes}
    (h : sweepAll texts .initial = .error v s) : leftOpen texts = false := by
  rw [leftOpen, h]

theorem leftOpen_of_ok {texts : List String} {sw : Sweep} {s : Scopes}
    (h : sweepAll texts .initial = .ok sw s) : leftOpen texts = (sw.after.depth != 0) := by
  rw [leftOpen, h]

namespace Sweep

theorem finish_of_depth_eq_zero {sw : Sweep} (h : sw.after.depth = 0) (count : Nat) :
    sw.finish count = pure ⟨sw.lines, sw.after.methods⟩ :=
  if_pos h

theorem finish_of_depth_ne_zero {sw : Sweep} (h : sw.after.depth ≠ 0) (count : Nat) :
    sw.finish count = .fail count .unbalancedBraces :=
  if_neg h

theorem finish_cons (count : Nat) (line : Line) (sw : Sweep) :
    finish count ⟨line :: sw.lines, sw.after⟩ = (do
      let found ← sw.finish count
      return ⟨line :: found.lines, found.methods⟩) := by
  by_cases h : sw.after.depth = 0
  · rw [finish_of_depth_eq_zero h, pure_bind]
    exact if_pos h
  · rw [finish_of_depth_ne_zero h, fail_bind]
    exact if_neg h

end Sweep

/-- **A survey is a sweep and a look at its end.** -/
theorem survey_eq_sweep (count : Nat) (p : Progress) (texts : List String) :
    survey count p texts = (do
      let sw ← sweep count p texts
      sw.finish (count + texts.length)) := by
  induction texts generalizing count p with
  | nil => rfl
  | cons text texts ih =>
    rw [survey, sweep]
    cases LineKind.ofText? text with
    | none => rfl
    | some kind =>
      have hlength : count + (text :: texts).length = count + 1 + texts.length := by
        rw [List.length_cons]
        omega
      simp only [ih, bind_assoc, pure_bind, hlength, Sweep.finish_cons]

theorem surveyAll_eq_sweepAll (texts : List String) :
    surveyAll texts = (do
      let sw ← sweepAll texts
      sw.finish texts.length) := by
  rw [surveyAll, survey_eq_sweep, Nat.zero_add]
  rfl

theorem sweep_append (count : Nat) (p : Progress) (xs ys : List String) :
    sweep count p (xs ++ ys) = (do
      let a ← sweep count p xs
      let b ← sweep (count + xs.length) a.after ys
      return ⟨a.lines ++ b.lines, b.after⟩) := by
  induction xs generalizing count p with
  | nil => simp [sweep]
  | cons x xs ih =>
    rw [List.cons_append, sweep, sweep]
    cases LineKind.ofText? x with
    | none => rfl
    | some kind =>
      have hlength : count + (x :: xs).length = count + 1 + xs.length := by
        rw [List.length_cons]
        omega
      simp only [ih, bind_assoc, pure_bind, hlength, List.cons_append]

theorem sweepAll_append (xs ys : List String) :
    sweepAll (xs ++ ys) = (do
      let a ← sweepAll xs
      let b ← sweep xs.length a.after ys
      return ⟨a.lines ++ b.lines, b.after⟩) := by
  rw [sweepAll, sweep_append, Nat.zero_add]
  rfl

/-! ## Sweeps that succeed -/

section

variable {count : Nat} {p : Progress} {text : String} {texts xs ys : List String} {s s' : Scopes}
  {sw : Sweep}

theorem sweep_nil_eq_ok_iff : sweep count p [] s = .ok sw s' ↔ sw = ⟨[], p⟩ ∧ s' = s := by
  simp [sweep, eq_comm]

theorem sweep_cons_eq_ok_iff :
    sweep count p (text :: texts) s = .ok sw s' ↔
      ∃ kind p' t rest, LineKind.ofText? text = some kind ∧
        Surveyed (count + 1) text p.methods s kind p.depth p' t ∧
        sweep (count + 1) p' texts t = .ok rest s' ∧
        sw = ⟨⟨count + 1, text, p.depth, kind⟩ :: rest.lines, rest.after⟩ := by
  rw [sweep]
  cases LineKind.ofText? text with
  | none => simp
  | some kind =>
    simp only [bind_eq_ok_iff, surveyLine_eq_ok_iff, pure_apply]
    constructor
    · rintro ⟨p', t, hline, rest, t', hrest, heq⟩
      cases heq
      exact ⟨kind, p', t, rest, rfl, hline, hrest, rfl⟩
    · rintro ⟨kind', p', t, rest, hk, hline, hrest, rfl⟩
      cases hk
      exact ⟨p', t, hline, rest, s', hrest, rfl⟩

theorem sweepAll_append_eq_ok_iff :
    sweepAll (xs ++ ys) s = .ok sw s' ↔
      ∃ a t b, sweepAll xs s = .ok a t ∧ sweep xs.length a.after ys t = .ok b s' ∧
        sw = ⟨a.lines ++ b.lines, b.after⟩ := by
  rw [sweepAll_append]
  simp only [bind_eq_ok_iff, pure_apply]
  constructor
  · rintro ⟨a, t, ha, b, t', hb, heq⟩
    cases heq
    exact ⟨a, t, b, ha, hb, rfl⟩
  · rintro ⟨a, t, b, ha, hb, rfl⟩
    exact ⟨a, t, ha, b, s', hb, rfl⟩

theorem surveyAll_eq_ok_iff {found : Survey} :
    surveyAll texts s = .ok found s' ↔
      ∃ sw, sweepAll texts s = .ok sw s' ∧ sw.after.depth = 0 ∧
        found = ⟨sw.lines, sw.after.methods⟩ := by
  rw [surveyAll_eq_sweepAll, bind_eq_ok_iff]
  constructor
  · rintro ⟨sw, t, hsw, hfinish⟩
    by_cases h : sw.after.depth = 0
    · rw [Sweep.finish_of_depth_eq_zero h] at hfinish
      cases hfinish
      exact ⟨sw, hsw, h, rfl⟩
    · rw [Sweep.finish_of_depth_ne_zero h] at hfinish
      cases hfinish
  · rintro ⟨sw, hsw, h, rfl⟩
    exact ⟨sw, s', hsw, by rw [Sweep.finish_of_depth_eq_zero h]; rfl⟩

theorem surveyAll_of_sweepAll_eq_error {v : Violation} (h : sweepAll texts s = .error v s') :
    surveyAll texts s = .error v s' := by
  rw [surveyAll_eq_sweepAll, bind_of_error h]

/-- Where blocks are open at the end, the survey fails there. -/
theorem surveyAll_of_depth_ne_zero (h : sweepAll texts s = .ok sw s') (hd : sw.after.depth ≠ 0) :
    surveyAll texts s = .error ⟨texts.length, .unbalancedBraces⟩ s' := by
  rw [surveyAll_eq_sweepAll, bind_of_ok h, Sweep.finish_of_depth_ne_zero hd]
  rfl

theorem checkLines_of_surveyAll_eq_error {v : Violation}
    (h : surveyAll texts .initial = .error v s') :
    checkLines texts = .error v := by
  rw [checkLines, checkProgram, bind_of_error h]

theorem length_lines_of_sweep (h : sweep count p texts s = .ok sw s') :
    sw.lines.length = texts.length := by
  induction texts generalizing count p s sw with
  | nil =>
    obtain ⟨rfl, -⟩ := sweep_nil_eq_ok_iff.1 h
    rfl
  | cons text texts ih =>
    obtain ⟨kind, p', t, rest, -, -, hrest, rfl⟩ := sweep_cons_eq_ok_iff.1 h
    rw [List.length_cons, List.length_cons, ih hrest]

theorem length_lines_of_surveyAll {found : Survey} (h : surveyAll texts s = .ok found s') :
    found.lines.length = texts.length := by
  obtain ⟨sw, hsw, -, rfl⟩ := surveyAll_eq_ok_iff.1 h
  exact length_lines_of_sweep hsw

/-- After the survey the walks give the verdict. -/
theorem checkLines_of_surveyAll {found : Survey} (hs : surveyAll texts .initial = .ok found s') :
    checkLines texts = match walkMethods found found.methods.toList s' with
      | .ok _ t => .ok ⟨texts.length, found.methods.size, t.global.vars.length⟩
      | .error v _ => .error v := by
  rw [checkLines, checkProgram, bind_of_ok hs]
  cases hw : walkMethods found found.methods.toList s' with
  | ok u t =>
    rw [bind_of_ok hw, ← length_lines_of_surveyAll hs]
    rfl
  | error v t => rw [bind_of_error hw]

/-- What a check that succeeds has done. -/
theorem exists_of_checkLines_eq_ok {summary : Summary} (h : checkLines texts = .ok summary) :
    ∃ found g t, surveyAll texts .initial = .ok found g ∧
      walkMethods found found.methods.toList g = .ok () t ∧
      summary = ⟨texts.length, found.methods.size, t.global.vars.length⟩ := by
  cases hs : surveyAll texts .initial with
  | error v g =>
    rw [checkLines_of_surveyAll_eq_error hs] at h
    cases h
  | ok found g =>
    rw [checkLines_of_surveyAll hs] at h
    cases hw : walkMethods found found.methods.toList g with
    | ok u t =>
      rw [hw] at h
      cases h
      exact ⟨found, g, t, rfl, hw, rfl⟩
    | error v t =>
      rw [hw] at h
      cases h

/-- A check that succeeds counts all lines. -/
theorem lines_of_checkLines_eq_ok {summary : Summary} (h : checkLines texts = .ok summary) :
    summary.lines = texts.length := by
  obtain ⟨found, g, t, -, -, rfl⟩ := exists_of_checkLines_eq_ok h
  rfl

end

/-! ## Braces -/

/-- How many of some texts open a block. -/
def openings (texts : List String) : Nat :=
  texts.countP (LineKind.ofText? · == some .blockOpen)

/-- How many of some texts close a block. -/
def closings (texts : List String) : Nat :=
  texts.countP (LineKind.ofText? · == some .blockClose)

theorem openings_append (xs ys : List String) : openings (xs ++ ys) = openings xs + openings ys :=
  List.countP_append

theorem closings_append (xs ys : List String) : closings (xs ++ ys) = closings xs + closings ys :=
  List.countP_append

theorem openings_cons (text : String) (texts : List String) :
    openings (text :: texts) = openings [text] + openings texts :=
  openings_append [text] texts

theorem closings_cons (text : String) (texts : List String) :
    closings (text :: texts) = closings [text] + closings texts :=
  closings_append [text] texts

/-- A line that is surveyed opens or closes a block as its kind says. -/
theorem Surveyed.depth_add_closings {line : Nat} {text : String} {methods : MethodTable}
    {s s' : Scopes} {kind : LineKind} {depth : Nat} {p : Progress}
    (h : Surveyed line text methods s kind depth p s')
    (hk : LineKind.ofText? text = some kind) :
    p.depth + closings [text] = depth + openings [text] := by
  simp only [openings, closings, List.countP_singleton, hk]
  cases h with
  | trivia hkind | inside hkind => rcases hkind with rfl | rfl <;> rfl
  | declaration | method | opens | closes => rfl

/-- A sweep counts the blocks that are open. -/
theorem depth_of_sweep {count : Nat} {p : Progress} {texts : List String} {s s' : Scopes}
    {sw : Sweep} (h : sweep count p texts s = .ok sw s') :
    sw.after.depth + closings texts = p.depth + openings texts := by
  induction texts generalizing count p s sw with
  | nil =>
    obtain ⟨rfl, -⟩ := sweep_nil_eq_ok_iff.1 h
    rfl
  | cons text texts ih =>
    obtain ⟨kind, p', t, rest, hk, hline, hrest, rfl⟩ := sweep_cons_eq_ok_iff.1 h
    have hfirst := hline.depth_add_closings hk
    have hafter := ih hrest
    rw [openings_cons, closings_cons]
    dsimp only
    omega

/-- Lines that close as many blocks as they open leave no block open. -/
theorem depth_of_sweepAll {texts : List String} (h : closings texts = openings texts)
    {s s' : Scopes} {sw : Sweep} (hsw : sweepAll texts s = .ok sw s') : sw.after.depth = 0 := by
  have hdepth := depth_of_sweep hsw
  simp only [h] at hdepth
  omega

/-- The lines of a kind are as many as the texts of that kind. -/
theorem countP_of_sweep {count : Nat} {p : Progress} {texts : List String} {s s' : Scopes}
    {sw : Sweep} (h : sweep count p texts s = .ok sw s') (kind : LineKind) :
    sw.lines.countP (·.kind == kind) = texts.countP (LineKind.ofText? · == some kind) := by
  induction texts generalizing count p s sw with
  | nil =>
    obtain ⟨rfl, -⟩ := sweep_nil_eq_ok_iff.1 h
    rfl
  | cons text texts ih =>
    obtain ⟨kind', p', t, rest, hk, -, hrest, rfl⟩ := sweep_cons_eq_ok_iff.1 h
    rw [List.countP_cons, List.countP_cons, ih hrest, hk]
    rfl

/-! ## Sweeps that fail -/

/-- A sweep stops at the line that it reads. -/
theorem line_of_sweep_eq_error {texts : List String} {count : Nat} {p : Progress} {s s' : Scopes}
    {v : Violation} (h : sweep count p texts s = .error v s') :
    count < v.line ∧ v.line ≤ count + texts.length := by
  induction texts generalizing count p s with
  | nil => cases h
  | cons text texts ih =>
    rw [List.length_cons]
    unfold sweep at h
    cases hk : LineKind.ofText? text with
    | none =>
      rw [hk] at h
      cases h
      simp only
      omega
    | some kind =>
      rw [hk] at h
      rcases bind_eq_error_iff.1 h with h | ⟨p', t, -, h⟩
      · have hline := line_of_surveyLine_eq_error h
        omega
      · rcases bind_eq_error_iff.1 h with h | ⟨rest, u, -, h⟩
        · have hline := ih h
          omega
        · cases h

end LineCheck
