import LineCheck.Proofs.Operators
import LineCheck.Proofs.Padding
import LineCheck.Proofs.Scopes

/-!
Legal conditions.

The check of a condition looks for operators at its ends before it looks at its
terms. But a term hides no operator (`Condition.isSolid_of_isTerm`), so that a
text with an operator too many has a piece that is no term: the terms alone
decide whether a condition is legal (`Condition.check_eq_ok_iff_forall_isTerm`),
and the places of the operators only what is reported
(`Condition.verdict_by_terms`). Nor does it matter that the text is cut before
it is scanned. If all blanks are gaps, the legal conditions are those whose
tokens are terms with operators between them
(`Condition.check_eq_ok_iff_tokenize`).
-/

namespace LineCheck.Condition

/-! ## Terms -/

/-- A token that is a term: a truth value, a number, or a name under which some
    open scope has an assigned variable of a type that conditions take. -/
def IsTermToken (s : Scopes) : Token → Prop
  | .literal (.bool _) | .literal (.int _) | .literal (.double _) => True
  | .ident name => ∃ scope ∈ s.toList, ∃ v, scope.get? name = some v ∧ v.isAssigned = true ∧
    (v.ty = .int ∨ v.ty = .double ∨ v.ty = .boolean)
  | _ => False

theorem isCondition_eq_true_iff {ty : Ty} :
    ty.isCondition = true ↔ ty = .int ∨ ty = .double ∨ ty = .boolean := by
  cases ty <;> simp [Ty.isCondition]

theorem isTerm_eq_true_iff {s : Scopes} {text : List Char} :
    isTerm s text = true ↔ ∃ t, Token.scan text = some [t] ∧ IsTermToken s t := by
  unfold isTerm
  split
  · rename_i l hscan
    cases l <;> simp [hscan, Literal.ty, Ty.isCondition, IsTermToken]
  · rename_i name hscan
    simp only [hscan, List.any_eq_true, Scopes.findAll, List.mem_filterMap, Bool.and_eq_true,
      isCondition_eq_true_iff]
    constructor
    · rintro ⟨v, ⟨scope, hscope, hv⟩, hassigned, hty⟩
      exact ⟨_, rfl, scope, hscope, v, hv, hassigned, hty⟩
    · rintro ⟨t, ht, hterm⟩
      cases ht
      obtain ⟨scope, hscope, v, hv, hassigned, hty⟩ := hterm
      exact ⟨v, ⟨scope, hscope, hv⟩, hassigned, hty⟩
  · rename_i hliteral hident
    simp only [Bool.false_eq_true, false_iff, not_exists, not_and]
    intro t hscan hterm
    cases t with
    | literal l => exact hliteral l hscan
    | ident name => exact hident name hscan
    | keyword | type | symbol => exact hterm

/-- The characters of terms. -/
def isTermChar (c : Char) : Bool :=
  Token.isWordPart c || c == '-' || c == '.'

theorem isOperatorChar_of_isTermChar {c : Char} (h : isTermChar c = true) :
    isOperatorChar c = false := by
  refine Bool.eq_false_iff.2 fun hc => ?_
  simp only [isOperatorChar, Bool.or_eq_true, beq_iff_eq] at hc
  rcases hc with rfl | rfl
  · exact absurd h (by decide)
  · exact absurd h (by decide)

theorem isBlank_of_isTermChar {c : Char} (h : isTermChar c = true) : Text.isBlank c = false := by
  refine Bool.eq_false_iff.2 fun hc => ?_
  simp only [isTermChar, Text.isWordPart_of_isBlank hc, Bool.false_or, Bool.or_eq_true,
    beq_iff_eq] at h
  rcases h with rfl | rfl
  · exact absurd hc (by decide)
  · exact absurd hc (by decide)

theorem isTermChar_of_isWord {word : List Char} (h : IsWord word) :
    ∀ c ∈ word, isTermChar c = true := by
  obtain ⟨d, rest, rfl, hd, hrest⟩ := h
  intro c hc
  rcases List.mem_cons.1 hc with rfl | hc
  · rcases hd with hd | ⟨rfl, -⟩
    · simp [isTermChar, Token.isWordPart, Char.isAlphanum, hd]
    · decide
  · rcases hrest c hc with hpart | rfl
    · simp [isTermChar, Token.isWordPart, hpart]
    · decide

theorem isTermChar_of_isInteger {text : List Char} (h : IsInteger text) :
    ∀ c ∈ text, isTermChar c = true := by
  have hdigits : ∀ {digits}, IsDigits digits → ∀ c ∈ digits, isTermChar c = true := by
    intro digits hall c hc
    simp [isTermChar, Token.isWordPart, Char.isAlphanum, hall.2 c hc]
  rcases h with h | ⟨digits, rfl, h⟩
  · exact hdigits h
  · exact List.forall_mem_cons.2 ⟨rfl, hdigits h⟩

theorem IsTermToken.isTermChar {s : Scopes} {t : Token} (h : IsTermToken s t) (ht : t.WellFormed) :
    ∀ c ∈ t.text.toList, isTermChar c = true := by
  cases t with
  | keyword | type | symbol => exact h.elim
  | ident name => exact isTermChar_of_isWord ht.1
  | literal l =>
    cases l with
    | char | str => exact h.elim
    | bool value => exact isTermChar_of_isWord (Token.isWord_text (by cases value <;> decide))
    | int text => exact isTermChar_of_isInteger ht
    | double text =>
      obtain ⟨whole, fraction, htext, hwhole, hfraction⟩ := ht
      intro c hc
      rw [Token.text, Literal.text, htext] at hc
      rcases List.mem_append.1 hc with hc | hc
      · exact isTermChar_of_isInteger hwhole c hc
      · rcases List.mem_cons.1 hc with rfl | hc
        · rfl
        · exact isTermChar_of_isInteger (.inl hfraction) c hc

/-- A term is written with characters of terms, between blanks. -/
theorem exists_of_isTerm {s : Scopes} {piece : List Char} (h : isTerm s (Text.trim piece) = true) :
    ∃ before text after, piece = before ++ text ++ after ∧ (∀ c ∈ before, Text.isBlank c = true) ∧
      (∀ c ∈ after, Text.isBlank c = true) ∧ text ≠ [] ∧ ∀ c ∈ text, isTermChar c = true := by
  obtain ⟨t, hscan, hterm⟩ := isTerm_eq_true_iff.1 h
  have hchars := hterm.isTermChar (Token.wellFormed_of_scan hscan t (by simp))
  obtain ⟨gap, rest, htrim, hgap, -, hne, hrest⟩ := Token.exists_eq_append_of_scan_cons hscan
  obtain ⟨before, after, hpiece, hbefore, hafter⟩ := Text.exists_eq_append_trim piece
  refine ⟨before ++ gap, t.text.toList, rest ++ after, ?_,
    fun c hc => ?_, fun c hc => ?_, hne, hchars⟩
  · rw [hpiece, htrim]
    simp only [List.append_assoc]
  · rcases List.mem_append.1 hc with hc | hc
    · exact hbefore c hc
    · exact Text.isBlank_of_isGap (hgap c hc)
  · rcases List.mem_append.1 hc with hc | hc
    · exact Text.isBlank_of_isGap (Token.scan_eq_nil_iff.1 hrest c hc)
    · exact hafter c hc

/-- **A term hides no operator**, in whatever blanks it is written. -/
theorem isSolid_of_isTerm {s : Scopes} {piece : List Char}
    (h : isTerm s (Text.trim piece) = true) : IsSolid piece := by
  obtain ⟨before, text, after, rfl, hbefore, hafter, hne, htext⟩ := exists_of_isTerm h
  have hblank : ∀ {c}, Text.isBlank c = true → isOperatorChar c = false := by
    intro c hc
    refine Bool.eq_false_iff.2 fun hop => ?_
    rw [isBlank_of_isOperatorChar hop] at hc
    cases hc
  refine ⟨fun c hc => ?_, ?_⟩
  · simp only [List.mem_append] at hc
    rcases hc with (hc | hc) | hc
    · exact hblank (hbefore c hc)
    · exact isOperatorChar_of_isTermChar (htext c hc)
    · exact hblank (hafter c hc)
  · obtain ⟨d, more, rfl⟩ := List.exists_cons_of_ne_nil hne
    exact ⟨d, by simp, isBlank_of_isTermChar (htext d (by simp))⟩

/-! ## Verdicts -/

section Verdict

variable {s : Scopes} {text : List Char}

theorem joined_iff_forall_isTerm :
    Joined (fun piece => isTerm s (Text.trim piece) = true) text ↔
      ∀ piece ∈ pieces text, isTerm s (Text.trim piece) = true :=
  Joined.iff_forall_pieces fun _ h => (isSolid_of_isTerm h).plain

theorem joined_isSolid (h : ∀ piece ∈ pieces text, isTerm s (Text.trim piece) = true) :
    Joined IsSolid text :=
  (joined_iff_forall_isTerm.2 h).imp fun _ => isSolid_of_isTerm

/-- What stands between two `||` has no other pieces than those between `&&`. -/
theorem pieces_of_mem {run : List Char} (h : run ∈ splitAtDouble '|' text) :
    pieces run = splitAtDouble '&' run := by
  rw [pieces, splitAtDouble_of_not_infix (not_infix_of_mem h), List.flatMap_singleton]

/-- A run of terms neither begins nor ends with an operator. -/
theorem isDangling_of_forall_isTerm {run : List Char} (hrun : run ∈ splitAtDouble '|' text)
    (h : ∀ piece ∈ splitAtDouble '&' run, isTerm s (Text.trim piece) = true) :
    isDangling run = false := by
  rw [← pieces_of_mem hrun] at h
  exact (joined_isSolid h).isDangling_eq_false

/-- **The terms alone decide whether a condition is legal.** -/
theorem check_eq_ok_iff_forall_isTerm {condition : String} :
    check condition s = .ok () ↔
      ∀ piece ∈ pieces condition.toList, isTerm s (Text.trim piece) = true := by
  rw [check_eq_ok_iff]
  constructor
  · rintro ⟨-, hruns⟩ piece hpiece
    obtain ⟨run, hrun, hmem⟩ := List.mem_flatMap.1 hpiece
    exact (hruns run hrun).2 piece hmem
  · intro h
    refine ⟨(joined_isSolid h).isDangling_eq_false, fun run hrun => ?_⟩
    have hterms : ∀ piece ∈ splitAtDouble '&' run, isTerm s (Text.trim piece) = true :=
      fun piece hpiece => h piece (List.mem_flatMap.2 ⟨run, hrun, hpiece⟩)
    exact ⟨isDangling_of_forall_isTerm hrun hterms, hterms⟩

/-- The terms of a run between two `||`: what is between its `&&`, without the
    blanks at the ends. -/
def terms (run : List Char) : List (List Char) :=
  (splitAtDouble '&' run).map Text.trim

theorem forall_mem_terms_iff {run : List Char} :
    (∀ term ∈ terms run, isTerm s term = true) ↔
      ∀ piece ∈ splitAtDouble '&' run, isTerm s (Text.trim piece) = true := by
  simp [terms]

/-- The check of a run stops at its first term that is none. -/
theorem checkTerms_eq_error_iff {ps : List (List Char)} {fault : Fault} :
    checkTerms s ps = .error fault ↔
      ∃ term, (ps.map Text.trim).find? (fun term => !isTerm s term) = some term ∧
        fault = .notBooleanCondition (String.ofList term) := by
  induction ps with
  | nil => simp [checkTerms]
  | cons piece ps ih =>
    by_cases h : isTerm s (Text.trim piece) = true
    · simp [checkTerms, h, ih]
    · simp [checkTerms, h, eq_comm]

/-- The check of a condition stops at its first run with a term that is none, if
    no run before it begins or ends with an operator. -/
theorem exists_of_checkRuns_eq_error {whole : List Char} {runs : List (List Char)} {fault : Fault}
    (hruns : ∀ run ∈ runs, (∀ term ∈ terms run, isTerm s term = true) → isDangling run = false)
    (h : checkRuns s whole runs = .error fault) :
    ∃ run term, runs.find? (fun run => !(terms run).all (isTerm s)) = some run ∧
      (terms run).find? (fun term => !isTerm s term) = some term ∧
      (isDangling run = true → fault = .consecutiveOperators (String.ofList (Text.trim whole))) ∧
      (isDangling run = false → fault = .notBooleanCondition (String.ofList term)) := by
  induction runs with
  | nil => cases h
  | cons run runs ih =>
    rw [List.forall_mem_cons] at hruns
    rw [checkRuns] at h
    cases hterms : checkTerms s (splitAtDouble '&' run) with
    | ok u =>
      have hall := forall_mem_terms_iff.2 (checkTerms_eq_ok_iff.1 hterms)
      simp only [hruns.1 hall, hterms, Bool.false_eq_true, if_false] at h
      have hskip : (!(terms run).all (isTerm s)) = false := by simpa using hall
      rw [List.find?_cons_of_neg (by simp [hskip])]
      exact ih hruns.2 h
    | error fault' =>
      obtain ⟨term, hterm, rfl⟩ := checkTerms_eq_error_iff.1 hterms
      have hfails : (!(terms run).all (isTerm s)) = true := by
        have hnot := List.find?_some hterm
        have hmem := List.mem_of_find?_eq_some hterm
        simp only [Bool.not_eq_true', List.all_eq_false]
        exact ⟨term, hmem, by simpa using hnot⟩
      refine ⟨run, term, List.find?_cons_of_pos hfails, hterm, fun hdangling => ?_,
        fun hdangling => ?_⟩
      · simpa [hdangling, eq_comm] using h
      · simpa [hdangling, hterms, eq_comm] using h

/-- A run between two `||` can only begin or end with `&&`. -/
theorem isDangling_run_iff {run : List Char} (hrun : run ∈ splitAtDouble '|' text) :
    isDangling run = true ↔ Borders .and run := by
  rw [isDangling_eq_true_iff]
  constructor
  · rintro ⟨op, hop, hborders⟩
    simp only [List.mem_cons, List.not_mem_nil, or_false] at hop
    rcases hop with rfl | rfl
    · have hbar : Text.isBlank '|' = false := by decide
      refine absurd ?_ (not_infix_of_mem hrun)
      rcases hborders with hstart | hend
      · obtain ⟨gap, rest, hrun, -⟩ := (Text.prefix_trim_iff hbar hbar).1 hstart
        exact ⟨gap, rest, hrun.symm⟩
      · obtain ⟨front, gap, hrun, -⟩ := (Text.suffix_trim_iff hbar hbar).1 hend
        exact ⟨front, gap, hrun.symm⟩
    · exact hborders
  · exact fun hborders => ⟨.and, by simp, hborders⟩

end Verdict

/-- The operators `op` and `op'` follow each other somewhere in a text, with
    only blanks between them. -/
def Adjacent (op op' : Symbol) (text : List Char) : Prop :=
  ∃ front gap rest, text = front ++ op.text.toList ++ gap ++ op'.text.toList ++ rest ∧
    ∀ c ∈ gap, Text.isBlank c = true

/-- A run that begins or ends with `&&` stands beside a `||`, or it begins or
    ends the text. -/
theorem adjacent_or_borders {text run : List Char} (hrun : run ∈ splitAtDouble '|' text)
    (h : Borders .and run) :
    (Adjacent .or .and text ∨ Adjacent .and .or text) ∨ Borders .and text := by
  have hblank : Text.isBlank '&' = false := by decide
  obtain ⟨before, after, hsplit⟩ := List.append_of_mem hrun
  obtain ⟨front, rest, rfl, hfront, hrest⟩ := exists_place hsplit
  rcases h with hstart | hend
  · obtain ⟨gap, more, rfl, hgap⟩ := (Text.prefix_trim_iff hblank hblank).1 hstart
    rcases hfront with rfl | ⟨front, rfl⟩
    · exact .inr (.inl ((Text.prefix_trim_iff hblank hblank).2 ⟨gap, more ++ rest, by simp, hgap⟩))
    · exact .inl (.inl ⟨front, gap, more ++ rest, by simp [Symbol.text], hgap⟩)
  · obtain ⟨more, gap, rfl, hgap⟩ := (Text.suffix_trim_iff hblank hblank).1 hend
    rcases hrest with rfl | ⟨rest, rfl⟩
    · exact .inr (.inr ((Text.suffix_trim_iff hblank hblank).2 ⟨front ++ more, gap, by simp, hgap⟩))
    · exact .inl (.inr ⟨front ++ more, gap, rest, by simp [Symbol.text], hgap⟩)

/-- What a check that fails without an operator at the ends of the condition
    reports. -/
theorem exists_of_check_ne_ok {condition : String} {s : Scopes} (h : check condition s ≠ .ok ())
    (hdangling : isDangling condition.toList = false) :
    ∃ run term, run ∈ splitAtDouble '|' condition.toList ∧
      (splitAtDouble '|' condition.toList).find? (fun run => !(terms run).all (isTerm s)) =
        some run ∧
      (terms run).find? (fun term => !isTerm s term) = some term ∧
      (Borders .and run → check condition s =
        .error (.consecutiveOperators (String.ofList (Text.trim condition.toList)))) ∧
      (¬Borders .and run →
        check condition s = .error (.notBooleanCondition (String.ofList term))) := by
  cases hcheck : check condition s with
  | ok u => exact absurd hcheck h
  | error fault =>
    rw [check, hdangling, if_neg Bool.false_ne_true] at hcheck
    obtain ⟨run, term, hrun, hterm, hconsecutive, hterms⟩ := exists_of_checkRuns_eq_error
      (fun run hrun hall => isDangling_of_forall_isTerm hrun (forall_mem_terms_iff.1 hall)) hcheck
    have hmem : run ∈ splitAtDouble '|' condition.toList := List.mem_of_find?_eq_some hrun
    rw [isDangling_run_iff hmem] at hconsecutive
    rw [← Bool.not_eq_true, isDangling_run_iff hmem] at hterms
    exact ⟨run, term, hmem, hrun, hterm, fun hb => by rw [hconsecutive hb],
      fun hb => by rw [hterms hb]⟩

/-- **Where operators stand decides only what is reported.** A condition is
    legal if all of its terms are terms. Otherwise an operator at its beginning
    or end is reported, or else, of the first run between two `||` with a text
    that is no term, an `&&` at its beginning or end, or else that text. An `&&`
    reported in this way does stand beside a `||`, and no condition with an
    operator at its beginning or end or with two operators side by side is
    legal. -/
theorem verdict_by_terms (condition : String) (s : Scopes) :
    (check condition s = .ok () ↔
      ∀ term ∈ (splitAtDouble '|' condition.toList).flatMap terms, isTerm s term = true) ∧
    (check condition s ≠ .ok () →
      ((∃ text, check condition s = .error (.danglingOperator text)) ↔
        ∃ op ∈ [Symbol.or, .and], Borders op condition.toList) ∧
      ((¬∃ op ∈ [Symbol.or, .and], Borders op condition.toList) → ∃ run term,
        (splitAtDouble '|' condition.toList).find? (fun run => !(terms run).all (isTerm s)) =
          some run ∧
        (terms run).find? (fun term => !isTerm s term) = some term ∧
        (Borders .and run → check condition s =
          .error (.consecutiveOperators (String.ofList (Text.trim condition.toList)))) ∧
        (¬Borders .and run →
          check condition s = .error (.notBooleanCondition (String.ofList term))))) ∧
    (∀ text, check condition s = .error (.consecutiveOperators text) →
      Adjacent .or .and condition.toList ∨ Adjacent .and .or condition.toList) ∧
    ∀ op ∈ [Symbol.or, .and], ∀ op' ∈ [Symbol.or, .and],
      Borders op condition.toList ∨ Adjacent op op' condition.toList →
        check condition s ≠ .ok () := by
  have hdangling_iff := @isDangling_eq_true_iff condition.toList
  have hnot : (¬∃ op ∈ [Symbol.or, .and], Borders op condition.toList) →
      isDangling condition.toList = false := by
    rw [← hdangling_iff, Bool.not_eq_true]
    exact id
  refine ⟨?_, fun hne => ⟨⟨?_, ?_⟩, fun hborders => ?_⟩, ?_, ?_⟩
  · have hterms : (splitAtDouble '|' condition.toList).flatMap terms =
        (pieces condition.toList).map Text.trim := List.map_flatMap.symm
    rw [check_eq_ok_iff_forall_isTerm, hterms, List.forall_mem_map]
  · rintro ⟨text, hcheck⟩
    by_contra hborders
    obtain ⟨run, term, -, -, -, hconsecutive, hterm⟩ := exists_of_check_ne_ok hne (hnot hborders)
    by_cases hrun : Borders .and run
    · rw [hconsecutive hrun] at hcheck
      cases hcheck
    · rw [hterm hrun] at hcheck
      cases hcheck
  · intro hborders
    exact ⟨_, if_pos (hdangling_iff.2 hborders)⟩
  · obtain ⟨run, term, -, hrest⟩ := exists_of_check_ne_ok hne (hnot hborders)
    exact ⟨run, term, hrest⟩
  · intro text hcheck
    have hdangling : isDangling condition.toList = false := by
      refine Bool.eq_false_iff.2 fun hdangling => ?_
      rw [check, if_pos hdangling] at hcheck
      cases hcheck
    have hne : check condition s ≠ .ok () := by simp [hcheck]
    obtain ⟨run, term, hmem, -, -, -, hterm⟩ := exists_of_check_ne_ok hne hdangling
    by_cases hrun : Borders .and run
    · rcases adjacent_or_borders hmem hrun with hadjacent | hborders
      · exact hadjacent
      · rw [hdangling_iff.2 ⟨.and, by simp, hborders⟩] at hdangling
        cases hdangling
    · rw [hterm hrun] at hcheck
      cases hcheck
  · intro op hop op' hop' hplace hok
    have hjoined := joined_isSolid (check_eq_ok_iff_forall_isTerm.1 hok)
    rcases hplace with hborders | ⟨front, gap, rest, heq, hgap⟩
    · exact hjoined.not_borders hop hborders
    · exact hjoined.not_adjacent hop hop' hgap heq

/-- The `&&` at the beginning of the second run is reported, and it stands
    behind the `||`. -/
theorem verdict_of_operator_after_or :
    check "b || && i" ⟨⟨.global, [⟨"b", .boolean, some "true", false⟩]⟩, []⟩ =
      .error (.consecutiveOperators "b || && i") ∧
    (Adjacent .or .and "b || && i".toList ∨ Adjacent .and .or "b || && i".toList) := by
  have hcheck : check "b || && i" ⟨⟨.global, [⟨"b", .boolean, some "true", false⟩]⟩, []⟩ =
      .error (.consecutiveOperators "b || && i") := by decide +kernel
  exact ⟨hcheck, (verdict_by_terms _ _).2.2.1 _ hcheck⟩

/-! ## Tokens -/

/-- Tokens that make a condition: a term, and then operators, each with a term
    after it. -/
inductive Alternating (s : Scopes) : List Token → Prop
  | single {t : Token} (h : IsTermToken s t) : Alternating s [t]
  | cons {t : Token} {op : Symbol} {ts : List Token} (h : IsTermToken s t)
    (hop : op ∈ [Symbol.or, .and]) (hts : Alternating s ts) : Alternating s (t :: .symbol op :: ts)

/-- Terms stand at the even places and operators between them. -/
theorem Alternating.forall_getElem? {s : Scopes} {ts : List Token} (h : Alternating s ts) :
    ts.length % 2 = 1 ∧ ∀ i t, ts[i]? = some t →
      (i % 2 = 0 → IsTermToken s t) ∧ (i % 2 = 1 → t = .symbol .or ∨ t = .symbol .and) := by
  induction h with
  | @single t h =>
    refine ⟨rfl, fun i u hi => ?_⟩
    obtain ⟨rfl, rfl⟩ : i = 0 ∧ t = u := by simpa [List.getElem?_singleton] using hi
    exact ⟨fun _ => h, by simp⟩
  | @cons t op ts h hop _ ih =>
    obtain ⟨hodd, hplaces⟩ := ih
    refine ⟨by simp only [List.length_cons]; omega, fun i u hi => ?_⟩
    rcases i with _ | _ | i
    · cases hi
      exact ⟨fun _ => h, by simp⟩
    · cases hi
      exact ⟨by simp, fun _ => by simpa using hop⟩
    · obtain ⟨hterm, hoperator⟩ := hplaces i u hi
      exact ⟨fun heven => hterm (by omega), fun hodd => hoperator (by omega)⟩

theorem alternating_of_forall_getElem? {s : Scopes} : ∀ {ts : List Token}, ts.length % 2 = 1 →
    (∀ i t, ts[i]? = some t →
      (i % 2 = 0 → IsTermToken s t) ∧ (i % 2 = 1 → t = .symbol .or ∨ t = .symbol .and)) →
    Alternating s ts
  | [], hodd, _ => absurd hodd (by decide)
  | [t], _, h => .single ((h 0 t rfl).1 rfl)
  | t :: u :: ts, hodd, h => by
    have hts : Alternating s ts := by
      simp only [List.length_cons] at hodd
      refine alternating_of_forall_getElem? (by omega) fun i v hi => ?_
      obtain ⟨hterm, hoperator⟩ := h (i + 2) v hi
      exact ⟨fun heven => hterm (by omega), fun hodd => hoperator (by omega)⟩
    have ht : IsTermToken s t := (h 0 t rfl).1 rfl
    rcases (h 1 u rfl).2 rfl with rfl | rfl
    · exact .cons ht (by simp) hts
    · exact .cons ht (by simp) hts

theorem isString_of_isTermToken {s : Scopes} {t : Token} (h : IsTermToken s t) :
    t.isString = false := by
  cases t with
  | keyword | type | symbol | ident => rfl
  | literal l =>
    cases l with
    | str => exact h.elim
    | int | double | char | bool => rfl

section Tokens

open Token

variable {s : Scopes} {text : List Char}

theorem scan_trim (hblank : ∀ c ∈ text, Text.isBlank c = true → isGap c = true) :
    scan (Text.trim text) = scan text := by
  obtain ⟨before, after, htext, hbefore, hafter⟩ := Text.exists_eq_append_trim text
  have hgap : ∀ c ∈ before, isGap c = true := by
    intro c hc
    refine hblank c ?_ (hbefore c hc)
    rw [htext]
    simp [hc]
  have hgap' : ∀ c ∈ after, isGap c = true := by
    intro c hc
    refine hblank c ?_ (hafter c hc)
    rw [htext]
    simp [hc]
  calc scan (Text.trim text) = scan (before ++ Text.trim text) := (scan_gap_append hgap _).symm
    _ = scan (before ++ Text.trim text ++ after) := (scan_append_gap hgap' _).symm
    _ = scan text := by rw [← htext]

/-- A term is read in the same way before an operator. -/
theorem scan_append_operator {piece : List Char} {t : Token} (hscan : scan piece = some [t])
    (hterm : IsTermToken s t) {op : Symbol} (hop : op ∈ [Symbol.or, .and]) (rest : List Char) :
    scan (piece ++ op.text.toList ++ rest) = (scan rest).map fun ts => t :: symbol op :: ts := by
  have ht : t.WellFormed := wellFormed_of_scan hscan t (by simp)
  obtain ⟨gap, gap', rfl, hgap, -, -, hrest⟩ := exists_eq_append_of_scan_cons hscan
  have hgap' := scan_eq_nil_iff.1 hrest
  obtain ⟨c, hc, hchar⟩ := exists_text_eq hop
  have hends : EndsWord (gap' ++ (op.text.toList ++ rest)) := by
    cases gap' with
    | nil =>
      rw [hc]
      rintro d ⟨⟩
      simp only [isOperatorChar, Bool.or_eq_true, beq_iff_eq] at hchar
      rcases hchar with rfl | rfl <;> decide
    | cons g gap' => exact (startsApart_cons (hgap' g (by simp)) _).endsWord
  have hnext := next?_text_append ht hends fun hs => by
    rw [isString_of_isTermToken hterm] at hs
    cases hs
  simp only [List.append_assoc]
  rw [scan_gap_append hgap, scan_of_next? hnext, scan_gap_append hgap',
    scan_of_next? (next?_symbol op rest), Option.map_map]
  rfl

/-- Joined terms are scanned to terms with operators between them. -/
theorem exists_alternating_of_joined
    (h : Joined (fun piece => isTerm s (Text.trim piece) = true) text)
    (hblank : ∀ c ∈ text, Text.isBlank c = true → isGap c = true) :
    ∃ ts, scan text = some ts ∧ Alternating s ts := by
  induction h with
  | single h =>
    obtain ⟨t, hscan, hterm⟩ := isTerm_eq_true_iff.1 h
    rw [scan_trim hblank] at hscan
    exact ⟨[t], hscan, .single hterm⟩
  | @cons piece rest op h hop _ ih =>
    obtain ⟨t, hscan, hterm⟩ := isTerm_eq_true_iff.1 h
    rw [scan_trim fun c hc => hblank c (by simp [hc])] at hscan
    obtain ⟨ts, hts, halternating⟩ := ih fun c hc => hblank c (by simp [hc])
    refine ⟨t :: symbol op :: ts, ?_, .cons hterm hop halternating⟩
    rw [scan_append_operator hscan hterm hop, hts]
    rfl

/-- A text that is scanned to terms with operators between them is joined of terms. -/
theorem joined_of_alternating {ts : List Token} (hts : Alternating s ts) (h : scan text = some ts)
    (hblank : ∀ c ∈ text, Text.isBlank c = true → isGap c = true) :
    Joined (fun piece => isTerm s (Text.trim piece) = true) text := by
  induction hts generalizing text with
  | single hterm => exact .single (isTerm_eq_true_iff.2 ⟨_, (scan_trim hblank).trans h, hterm⟩)
  | @cons t op ts hterm hop _ ih =>
    have ht : t.WellFormed := wellFormed_of_scan h t (by simp)
    obtain ⟨gap, rest, rfl, hgap, -, -, hrest⟩ := exists_eq_append_of_scan_cons h
    obtain ⟨gap', rest', rfl, hgap', -, -, hrest'⟩ := exists_eq_append_of_scan_cons hrest
    have hpiece : scan (gap ++ t.text.toList ++ gap') = some [t] := by
      have hnext := next?_text_append ht startsApart_nil.endsWord fun _ => rfl
      rw [List.append_nil] at hnext
      rw [scan_append_gap hgap', scan_gap_append hgap, scan_of_next? hnext, scan_nil]
      rfl
    have heq : gap ++ t.text.toList ++ (gap' ++ (symbol op).text.toList ++ rest') =
        gap ++ t.text.toList ++ gap' ++ op.text.toList ++ rest' := by
      simp [Token.text]
    rw [heq] at hblank ⊢
    refine .cons (isTerm_eq_true_iff.2 ⟨t, ?_, hterm⟩) hop
      (ih hrest' fun c hc => hblank c (by simp [hc]))
    rw [scan_trim fun c hc => hblank c (by simp only [List.mem_append] at hc ⊢; tauto)]
    exact hpiece

end Tokens

/-- **The legal conditions are those whose tokens are terms with operators
    between them**, if the blanks of the condition are all gaps. -/
theorem check_eq_ok_iff_tokenize (s : Scopes) {condition : String}
    (hblank : ∀ c ∈ condition.toList, Text.isBlank c = true → Token.isGap c = true) :
    check condition s = .ok () ↔
      ∃ ts, tokenize condition = some ts ∧ ts.length % 2 = 1 ∧ ∀ i t, ts[i]? = some t →
        (i % 2 = 0 → IsTermToken s t) ∧ (i % 2 = 1 → t = .symbol .or ∨ t = .symbol .and) := by
  rw [check_eq_ok_iff_forall_isTerm, ← joined_iff_forall_isTerm]
  constructor
  · intro h
    obtain ⟨ts, hts, halternating⟩ := exists_alternating_of_joined h hblank
    exact ⟨ts, hts, halternating.forall_getElem?⟩
  · rintro ⟨ts, hts, hodd, hplaces⟩
    exact joined_of_alternating (alternating_of_forall_getElem? hodd hplaces) hts hblank

/-- The name is a term through the outer scope, although the inner variable of
    this name is none. -/
theorem check_of_hidden_number :
    check "i||true &&\t-2.5" ⟨⟨.method, [⟨"i", .string, none, false⟩]⟩,
      [⟨.global, [⟨"i", .int, some "1", false⟩]⟩]⟩ = .ok () ∧
    ∃ ts, tokenize "i||true &&\t-2.5" = some ts ∧ ts.length % 2 = 1 ∧ ∀ i t, ts[i]? = some t →
      (i % 2 = 0 → IsTermToken ⟨⟨.method, [⟨"i", .string, none, false⟩]⟩,
        [⟨.global, [⟨"i", .int, some "1", false⟩]⟩]⟩ t) ∧
      (i % 2 = 1 → t = .symbol .or ∨ t = .symbol .and) := by
  have hcheck : check "i||true &&\t-2.5" ⟨⟨.method, [⟨"i", .string, none, false⟩]⟩,
      [⟨.global, [⟨"i", .int, some "1", false⟩]⟩]⟩ = .ok () := by decide +kernel
  refine ⟨hcheck, (check_eq_ok_iff_tokenize _ ?_).1 hcheck⟩
  have hall : ("i||true &&\t-2.5".toList.all fun c => !Text.isBlank c || Token.isGap c) = true := by
    decide
  intro c hc hblank
  simpa [hblank] using List.all_eq_true.1 hall c hc

end LineCheck.Condition
