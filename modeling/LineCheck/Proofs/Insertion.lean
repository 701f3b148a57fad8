import LineCheck.Proofs.Renumbering

/-!
Inserting trivia.

A comment or a blank line that is inserted somewhere moves the lines after it by
one and changes nothing else (`checkLines_insert_trivia`): the sweep goes over
it (`sweepAll_insert`), and the walks find lines that are alike
(`moved_insert`).
-/

namespace LineCheck

/-- The new number of a line after one line is inserted behind the first `i`. -/
def shiftAfter (i line : Nat) : Nat :=
  if line ≤ i then line else line + 1

theorem shiftAfter_of_le {i line : Nat} (h : line ≤ i) : shiftAfter i line = line :=
  if_pos h

theorem shiftAfter_of_lt {i line : Nat} (h : i < line) : shiftAfter i line = line + 1 :=
  if_neg (by omega)

/-! ## The sweep -/

/-- The survey of a comment or a blank line records it and goes on. -/
theorem sweep_cons_trivia {text : String} {kind : LineKind} (ht : LineKind.ofText? text = some kind)
    (hk : kind = .comment ∨ kind = .blank) (count : Nat) (p : Progress) (texts : List String) :
    sweep count p (text :: texts) = (do
      let rest ← sweep (count + 1) p texts
      return ⟨⟨count + 1, text, p.depth, kind⟩ :: rest.lines, rest.after⟩) := by
  have hline : surveyLine (count + 1) text p.methods kind p.depth = pure p := by
    obtain ⟨depth, methods⟩ := p
    rcases hk with rfl | rfl <;> rfl
  rw [sweep, ht]
  simp only [hline, pure_bind]

/-- The sweep goes over a comment or a blank line that is inserted, and
    renumbers the rest. -/
theorem sweepAll_insert {text : String} {kind : LineKind} (ht : LineKind.ofText? text = some kind)
    (hk : kind = .comment ∨ kind = .blank) (before after : List String) :
    sweepAll (before ++ text :: after) = Checking.renumber (shiftAfter before.length) (do
      let a ← sweepAll before
      let b ← sweep before.length a.after after
      return ⟨a.lines.map (Line.renumber (shiftAfter before.length)) ++
        ⟨before.length + 1, text, a.after.depth, kind⟩ ::
          b.lines.map (Line.renumber (shiftAfter before.length)),
        b.after.renumber (shiftAfter before.length)⟩) := by
  have hbefore : sweepAll before = Checking.renumber (shiftAfter before.length) (do
      let a ← sweepAll before
      return a.renumber (shiftAfter before.length)) := by
    refine sweep_renumber (p := ⟨0, .empty⟩) ?_
    intro j hj
    exact shiftAfter_of_le (by omega)
  have hafter : ∀ p : Progress,
      sweep (before.length + 1) (p.renumber (shiftAfter before.length)) after =
      Checking.renumber (shiftAfter before.length) (do
        let b ← sweep before.length p after
        return b.renumber (shiftAfter before.length)) := by
    refine fun p => sweep_renumber ?_ p
    intro j _
    rw [shiftAfter_of_lt (by omega)]
    omega
  rw [sweepAll_append]
  conv =>
    lhs
    rw [hbefore]
  simp only [renumber_bind, renumber_pure, bind_assoc, pure_bind, sweep_cons_trivia ht hk]
  simp only [Sweep.renumber, hafter, renumber_bind, renumber_pure, bind_assoc, pure_bind]
  rfl

/-- With and without the inserted line, the sweep stops at the same line, or it
    gets to the end with the same blocks open. -/
theorem sweepAll_insert_cases {text : String} {kind : LineKind}
    (ht : LineKind.ofText? text = some kind) (hk : kind = .comment ∨ kind = .blank)
    (before after : List String) :
    (∃ v s, sweepAll (before ++ after) .initial = .error v s ∧
      sweepAll (before ++ text :: after) .initial =
        .error (v.renumber (shiftAfter before.length)) s) ∨
    ∃ a b p line s, a.length = before.length ∧ line.kind = kind ∧
      sweepAll (before ++ after) .initial = .ok ⟨a ++ b, p⟩ s ∧
      sweepAll (before ++ text :: after) .initial =
        .ok ⟨a.map (Line.renumber (shiftAfter before.length)) ++
          line :: b.map (Line.renumber (shiftAfter before.length)),
          p.renumber (shiftAfter before.length)⟩ s := by
  rw [sweepAll_insert ht hk, sweepAll_append]
  cases ha : sweepAll before .initial with
  | error v s =>
    left
    exact ⟨v, s, bind_of_error ha, renumber_of_error (bind_of_error ha)⟩
  | ok a s =>
    rw [bind_of_ok ha]
    cases hb : sweep before.length a.after after s with
    | error v t =>
      left
      refine ⟨v, t, bind_of_error hb, renumber_of_error ?_⟩
      rw [bind_of_ok ha, bind_of_error hb]
    | ok b t =>
      right
      refine ⟨a.lines, b.lines, b.after, ⟨before.length + 1, text, a.after.depth, kind⟩, t,
        length_lines_of_sweep ha, rfl, ?_, renumber_eq_ok_iff.2 ?_⟩
      · rw [bind_of_ok hb]
        rfl
      · rw [bind_of_ok ha, bind_of_ok hb]
        rfl

/-! ## The walks -/

/-- After the insertion of a comment or a blank line, each walk finds lines that
    are alike. -/
theorem moved_insert {a b : List Line} {line : Line}
    (hk : line.kind = .comment ∨ line.kind = .blank) (methods : MethodTable) :
    Moved (shiftAfter a.length) ⟨a ++ b, methods⟩
      ⟨a.map (Line.renumber (shiftAfter a.length)) ++
        line :: b.map (Line.renumber (shiftAfter a.length)),
        methods.renumber (shiftAfter a.length)⟩ := by
  refine ⟨rfl, ?_⟩
  intro m _
  dsimp only
  by_cases hm : m.line ≤ a.length
  · rw [shiftAfter_of_le hm, List.drop_append_of_le_length hm,
      List.drop_append_of_le_length (by simpa using hm), ← List.map_drop]
    exact .append _ fun n => .trivia hk (.map b)
  · obtain ⟨k, hline⟩ : ∃ k, m.line = a.length + k := ⟨m.line - a.length, by omega⟩
    have hdrop : (a.map (Line.renumber (shiftAfter a.length)) ++
        line :: b.map (Line.renumber (shiftAfter a.length))).drop (a.length + k + 1) =
        (b.drop k).map (Line.renumber (shiftAfter a.length)) := by
      rw [List.map_drop, Nat.add_assoc, List.drop_append]
      simp
    rw [shiftAfter_of_lt (by omega), hline, hdrop, List.drop_append]
    simp only [List.drop_eq_nil_of_le (Nat.le_add_right _ _), Nat.add_sub_cancel_left,
      List.nil_append]
    exact .map _

/-! ## Verdicts -/

/-- **Trivia do not change a verdict.** Where a comment or a blank line is
    inserted after the first `i` lines, a legal program stays legal, with one
    line more, and a violation stays the same, at the same line of the program.
    Only blocks that are open at the end are reported at the last line, whatever
    that is. -/
theorem checkLines_insert_trivia (lines : List String) {i : Nat} (hi : i ≤ lines.length)
    {text : String}
    (ht : LineKind.ofText? text = some .comment ∨ LineKind.ofText? text = some .blank) :
    (∀ summary, checkLines lines = .ok summary →
      checkLines (lines.take i ++ text :: lines.drop i) =
        .ok ⟨summary.lines + 1, summary.methods, summary.globals⟩) ∧
    ∀ v, checkLines lines = .error v →
      (leftOpen lines = false →
        checkLines (lines.take i ++ text :: lines.drop i) =
          .error ⟨if v.line ≤ i then v.line else v.line + 1, v.fault⟩) ∧
      (leftOpen lines = true → v = ⟨lines.length, .unbalancedBraces⟩ ∧
        checkLines (lines.take i ++ text :: lines.drop i) =
          .error ⟨lines.length + 1, .unbalancedBraces⟩) := by
  obtain ⟨kind, hkind, hk⟩ : ∃ kind, LineKind.ofText? text = some kind ∧
      (kind = .comment ∨ kind = .blank) := by
    rcases ht with ht | ht
    · exact ⟨_, ht, .inl rfl⟩
    · exact ⟨_, ht, .inr rfl⟩
  obtain ⟨before, after, rfl, rfl⟩ : ∃ before after, lines = before ++ after ∧ i = before.length :=
    ⟨lines.take i, lines.drop i, (List.take_append_drop i lines).symm, by simp [hi]⟩
  have hlength : (before ++ text :: after).length = (before ++ after).length + 1 := by
    simp only [List.length_append, List.length_cons]
    omega
  rw [List.take_left, List.drop_left]
  rcases sweepAll_insert_cases hkind hk before after with ⟨v, s, hv, hv'⟩ |
    ⟨a, b, p, line, s, ha, hline, hok, hok'⟩
  · -- the sweep stops
    have hcheck := checkLines_of_surveyAll_eq_error (surveyAll_of_sweepAll_eq_error hv)
    have hcheck' := checkLines_of_surveyAll_eq_error (surveyAll_of_sweepAll_eq_error hv')
    rw [hcheck, hcheck', leftOpen_of_error hv]
    refine ⟨nofun, ?_⟩
    rintro _ ⟨⟩
    exact ⟨fun _ => rfl, nofun⟩
  · by_cases hd : p.depth = 0
    · -- the survey succeeds: what is left are the walks
      have hmoved := moved_insert (a := a) (b := b) (hline ▸ hk) p.methods
      rw [ha] at hmoved
      have hs : surveyAll (before ++ after) .initial = .ok ⟨a ++ b, p.methods⟩ s :=
        surveyAll_eq_ok_iff.2 ⟨_, hok, hd, rfl⟩
      have hs' := surveyAll_eq_ok_iff.2 ⟨_, hok', hd, rfl⟩
      have hcheck := checkLines_of_moved hmoved hs hs'
      have hopen : leftOpen (before ++ after) = false := by
        rw [leftOpen_of_ok hok]
        exact bne_eq_false_iff_eq.2 hd
      rw [hcheck, hopen]
      refine ⟨?_, ?_⟩
      · intro summary hsummary
        rw [hsummary, hlength, lines_of_checkLines_eq_ok hsummary]
      · intro v hv
        rw [hv]
        exact ⟨fun _ => rfl, nofun⟩
    · -- blocks are open at the end
      have hcheck := checkLines_of_surveyAll_eq_error (surveyAll_of_depth_ne_zero hok hd)
      have hcheck' := checkLines_of_surveyAll_eq_error (surveyAll_of_depth_ne_zero hok' hd)
      have hopen : leftOpen (before ++ after) = true := by
        rw [leftOpen_of_ok hok]
        exact bne_iff_ne.2 hd
      rw [hcheck, hcheck', hopen, hlength]
      refine ⟨nofun, ?_⟩
      rintro _ ⟨⟩
      exact ⟨nofun, fun _ => ⟨rfl, rfl⟩⟩

/-- A comment between the return of a method and its brace moves a violation of
    the next method. -/
theorem checkLines_insert_comment_after_return :
    checkLines ["void f() \x7b", "return;", "\x7d", "void g() \x7b", "b = 1;", "return;", "\x7d"] =
      .error ⟨5, .undeclaredAssignment "b"⟩ ∧
    checkLines ["void f() \x7b", "return;", "// done", "\x7d", "void g() \x7b", "b = 1;", "return;",
      "\x7d"] = .error ⟨6, .undeclaredAssignment "b"⟩ := by
  have ht : LineKind.ofText? "// done" = some .comment ∨
      LineKind.ofText? "// done" = some .blank := by
    decide +kernel
  have hcheck : checkLines ["void f() \x7b", "return;", "\x7d", "void g() \x7b", "b = 1;",
      "return;", "\x7d"] = .error ⟨5, .undeclaredAssignment "b"⟩ := by
    decide +kernel
  have hopen : leftOpen ["void f() \x7b", "return;", "\x7d", "void g() \x7b", "b = 1;", "return;",
      "\x7d"] = false := by
    decide +kernel
  exact ⟨hcheck, ((checkLines_insert_trivia _ (i := 2) (by decide) ht).2 _ hcheck).1 hopen⟩

end LineCheck
