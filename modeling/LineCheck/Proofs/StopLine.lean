import LineCheck.Proofs.TreeCheck

/-!
The line at which a check stops.

Work that fails does so at one of the lines it is about: a survey at a line that
it has still to read, or at the last one (`line_of_survey_eq_error`), a body at
one of its lines (`line_of_check_eq_error`), a method between its header and its
closing brace (`line_of_checkMethod_eq_error`).
-/

namespace LineCheck

/-! ## The survey -/

theorem line_of_globalStatement_eq_error {line : Nat} {text : String} {s s' : Scopes}
    {v : Violation} (h : globalStatement line text s = .error v s') : v.line = line := by
  unfold globalStatement at h
  rcases hst : Statement.ofText? text with _ | d | a | c <;> rw [hst] at h
  · cases h
    rfl
  · exact (atLine_eq_error_iff.1 (discard_eq_error_iff.1 h)).1
  · cases h
    rfl
  · cases h
    rfl

theorem line_of_globalBlock_eq_error {line : Nat} {text : String} {methods : MethodTable}
    {s s' : Scopes} {v : Violation} (h : globalBlock line text methods s = .error v s') :
    v.line = line := by
  unfold globalBlock at h
  cases hh : MethodHeader.ofText? text with
  | none =>
    rw [hh] at h
    cases h
    rfl
  | some header =>
    simp only [hh] at h
    cases hr : methods.register header line with
    | ok methods' =>
      rw [hr] at h
      cases h
    | error fault =>
      rw [hr] at h
      cases h
      rfl

theorem line_of_surveyLine_eq_error {line : Nat} {text : String} {methods : MethodTable}
    {kind : LineKind} {depth : Nat} {s s' : Scopes} {v : Violation}
    (h : surveyLine line text methods kind depth s = .error v s') : v.line = line := by
  unfold surveyLine at h
  split at h
  · cases h
    rfl
  · rcases bind_eq_error_iff.1 h with h | ⟨u, t, -, h⟩
    · exact line_of_globalStatement_eq_error h
    · cases h
  · rcases bind_eq_error_iff.1 h with h | ⟨methods', t, -, h⟩
    · exact line_of_globalBlock_eq_error h
    · cases h
  · cases h
  · cases h
    rfl
  · cases h
  · cases h

/-- A survey stops at a line that it has still to read. Only where blocks are
    open and nothing is left to read, it stops at the line before. -/
theorem line_of_survey_eq_error {texts : List String} {count : Nat} {p : Progress} {s s' : Scopes}
    {v : Violation} (h : survey count p texts s = .error v s') :
    v.line ≤ count + texts.length ∧
      (count < v.line ∨ v.line = count ∧ texts = [] ∧ p.depth ≠ 0) := by
  induction texts generalizing count p s with
  | nil =>
    unfold survey at h
    split at h
    · cases h
    · rename_i hd
      cases h
      exact ⟨Nat.le_refl _, .inr ⟨rfl, rfl, hd⟩⟩
  | cons text texts ih =>
    rw [List.length_cons]
    unfold survey at h
    cases hk : LineKind.ofText? text with
    | none =>
      rw [hk] at h
      cases h
      exact ⟨by simp only; omega, .inl (Nat.lt_succ_self count)⟩
    | some kind =>
      rw [hk] at h
      rcases bind_eq_error_iff.1 h with h | ⟨p', t, -, h⟩
      · have hline := line_of_surveyLine_eq_error h
        exact ⟨by omega, .inl (by omega)⟩
      · rcases bind_eq_error_iff.1 h with h | ⟨found, u, -, h⟩
        · obtain ⟨hle, hlt⟩ := ih h
          exact ⟨by omega, .inl (by omega)⟩
        · cases h

/-! ## Bodies -/

theorem line_of_statementAt_eq_error {methods : MethodTable} {line : Nat} {text : String}
    {s s' : Scopes} {v : Violation} (h : statementAt methods line text s = .error v s') :
    v.line = line := by
  unfold statementAt at h
  cases hst : Statement.ofText? text with
  | none =>
    rw [hst] at h
    cases h
    rfl
  | some statement =>
    rw [hst] at h
    exact (atLine_eq_error_iff.1 h).1

theorem line_of_headerAt_eq_error {line : Nat} {text : String} {s s' : Scopes} {v : Violation}
    (h : headerAt line text s = .error v s') : v.line = line := by
  unfold headerAt at h
  cases hh : BlockHeader.ofText? text with
  | none =>
    rw [hh] at h
    cases h
    rfl
  | some header =>
    rw [hh] at h
    exact (atLine_eq_error_iff.1 h).1

theorem line_of_checkBlock_eq_error {line : Line} {s s' : Scopes} {v : Violation}
    (h : checkBlock line s = .error v s') : v.line = line.number := by
  unfold checkBlock at h
  cases hh : BlockHeader.ofText? line.text with
  | none =>
    rw [hh] at h
    cases h
    rfl
  | some header =>
    rw [hh] at h
    rcases bind_eq_error_iff.1 h with h | ⟨u, t, -, h⟩
    · exact (atLine_eq_error_iff.1 h).1
    · cases h

/-- A body stops at one of its lines. -/
theorem line_of_check_eq_error {b : Body} {methods : MethodTable} {count : Nat} {s s' : Scopes}
    {v : Violation} (h : b.check methods count s = .error v s') :
    count < v.line ∧ v.line ≤ count + b.size := by
  induction b generalizing count s with
  | nil => cases h
  | trivia line rest ih | returnLine line rest ih =>
    have := ih h
    simp only [Body.size_trivia, Body.size_returnLine]
    omega
  | statement line rest ih =>
    rw [Body.size_statement]
    rcases bind_eq_error_iff.1 h with h | ⟨u, t, -, h⟩
    · have := line_of_statementAt_eq_error h
      omega
    · have := ih h
      omega
  | block header body close rest ihb ihr =>
    rw [Body.size_block]
    rcases bind_eq_error_iff.1 h with h | ⟨u, t, -, h⟩
    · have := line_of_headerAt_eq_error h
      omega
    · rcases bind_eq_error_iff.1 h with h | ⟨u', t', -, h⟩
      · have := ihb (inScope_eq_error_iff.1 h)
        omega
      · have := ihr h
        omega

theorem line_of_receive_eq_error {line : Nat} {params : List Variable} {s s' : Scopes}
    {v : Violation} (h : receive line params s = .error v s') : v.line = line := by
  induction params generalizing s with
  | nil => cases h
  | cons param params ih =>
    rcases bind_eq_error_iff.1 h with h | ⟨u, t, -, h⟩
    · exact (atLine_eq_error_iff.1 h).1
    · exact ih h

/-- A method stops at its header, at a line of its body or at its closing brace. -/
theorem line_of_checkMethod_eq_error {m : Method} {b : Body} {methods : MethodTable} {s s' : Scopes}
    {v : Violation} (h : b.checkMethod methods m s = .error v s') :
    m.line ≤ v.line ∧ v.line ≤ m.line + b.size + 1 := by
  rcases bind_eq_error_iff.1 (inScope_eq_error_iff.1 h) with h | ⟨u, t, -, h⟩
  · have := line_of_receive_eq_error h
    omega
  · rcases bind_eq_error_iff.1 h with h | ⟨u', t', -, h⟩
    · have := line_of_check_eq_error h
      omega
    · unfold Body.checkReturn at h
      split at h
      · cases h
      · cases h
        simp only
        omega

theorem line_of_checkBodies_eq_error {pairs : List (Method × Body)} {methods : MethodTable}
    {s s' : Scopes} {v : Violation} (h : checkBodies methods pairs s = .error v s') :
    ∃ pair ∈ pairs, pair.1.line ≤ v.line ∧ v.line ≤ pair.1.line + pair.2.size + 1 := by
  induction pairs generalizing s with
  | nil => cases h
  | cons pair pairs ih =>
    rcases bind_eq_error_iff.1 h with h | ⟨u, t, -, h⟩
    · exact ⟨pair, by simp, line_of_checkMethod_eq_error h⟩
    · obtain ⟨pair', hmem, hline⟩ := ih h
      exact ⟨pair', by simp [hmem], hline⟩

end LineCheck
