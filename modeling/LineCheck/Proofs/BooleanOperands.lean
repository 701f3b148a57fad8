import LineCheck.Proofs.Assignments
import LineCheck.Proofs.Conditions
import LineCheck.Proofs.Sessions

/-!
Operands as conditions and as values of boolean variables.

A text that is one operand can be a condition, and the operand can be assigned
to a boolean variable. The types that conditions take are those that `boolean`
accepts (`Ty.accepts_boolean`), so literals are treated alike. A name that is
assigned stands for the variable that it means, but in a condition it may stand
for any variable of the name that is open
(`Condition.check_eq_ok_iff_isTermToken`). So what can be assigned is also a
legal condition, and only a variable that hides another one makes a difference
(`condition_agrees_with_boolean`).
-/

namespace LineCheck

/-! ## Types and variables -/

theorem Ty.accepts_boolean (ty : Ty) : Ty.boolean.accepts ty = ty.isCondition := by
  cases ty <;> rfl

/-- A variable that has a value, of a type that conditions take. -/
def Variable.HasTruth (v : Variable) : Prop :=
  v.isAssigned = true ∧ (v.ty = .int ∨ v.ty = .double ∨ v.ty = .boolean)

namespace Scopes

variable {s : Scopes} {name : String}

/-- A name can be assigned to a boolean variable if the variable that it means can. -/
theorem exists_valueFor_boolean_iff :
    (∃ value, s.valueFor .boolean (.var name) = .ok value) ↔
      ∃ v, s.find? name = some v ∧ v.HasTruth := by
  simp only [valueFor_var_eq_ok_iff, Ty.accepts_boolean, Condition.isCondition_eq_true_iff,
    Variable.HasTruth, Variable.isAssigned, Option.isSome_iff_exists]
  constructor
  · rintro ⟨value, v, hv, hvalue, hty⟩
    exact ⟨v, hv, ⟨value, hvalue⟩, hty⟩
  · rintro ⟨v, hv, ⟨value, hvalue⟩, hty⟩
    exact ⟨value, v, hv, hvalue, hty⟩

/-- With distinct names, what a scope has under a name is what stands in it with
    this name. -/
theorem Distinct.get?_eq_some {scope : Scope} (hs : s.Distinct) (hscope : scope ∈ s.toList)
    {v : Variable} (hv : v ∈ scope.vars) : scope.get? v.name = some v := by
  have hmem : v ∈ scope.vars.filter (·.name == v.name) := by simpa using hv
  rw [Scope.filter_name_eq (hs scope hscope)] at hmem
  exact Option.mem_toList.1 hmem

/-- Two variables of one scope have different names. -/
theorem Distinct.eq_of_varAt? (hs : s.Distinct) {id k k' : Nat} {v w : Variable}
    (hv : s.varAt? id k = some v) (hw : s.varAt? id k' = some w) (hname : w.name = v.name) :
    w = v := by
  obtain ⟨scope, hmem, hscope, hv⟩ := mem_of_varAt? hv
  obtain ⟨scope', -, hscope', hw⟩ := mem_of_varAt? hw
  obtain rfl : scope = scope' := Option.some.inj (hscope.symm.trans hscope')
  have hget := hs.get?_eq_some hmem hw
  rw [hname, hs.get?_eq_some hmem hv] at hget
  exact (Option.some.inj hget).symm

/-- Some open scope has a variable under a name if one stands at some place. -/
theorem Distinct.exists_get?_iff_varAt? (hs : s.Distinct) {P : Variable → Prop} :
    (∃ scope ∈ s.toList, ∃ v, scope.get? name = some v ∧ P v) ↔
      ∃ id k v, s.varAt? id k = some v ∧ v.name = name ∧ P v := by
  constructor
  · rintro ⟨scope, hscope, v, hv, hP⟩
    obtain ⟨id, hid⟩ := List.getElem?_of_mem (List.mem_reverse.2 hscope)
    obtain ⟨k, hk⟩ := List.getElem?_of_mem (List.mem_of_find?_eq_some hv)
    have hvar : s.varAt? id k = some v := Option.bind_eq_some_iff.2 ⟨scope, hid, hk⟩
    exact ⟨id, k, v, hvar, (Scope.get?_eq_some_iff.1 hv).1, hP⟩
  · rintro ⟨id, k, v, hv, rfl, hP⟩
    obtain ⟨scope, hmem, -, hv⟩ := mem_of_varAt? hv
    exact ⟨scope, hmem, v, hs.get?_eq_some hmem hv, hP⟩

/-- **Only a hidden variable makes a difference.** Some variable of a name can
    stand in a condition, but not the one that the name means: then it stands
    further outside. -/
theorem Distinct.hidden_iff (hs : s.Distinct) :
    ((∃ scope ∈ s.toList, ∃ w, scope.get? name = some w ∧ w.HasTruth) ∧
        ¬∃ v, s.find? name = some v ∧ v.HasTruth) ↔
      ∃ id k v, s.Innermost name id k v ∧ ¬v.HasTruth ∧
        ∃ id' k' w, id' < id ∧ s.varAt? id' k' = some w ∧ w.name = name ∧ w.HasTruth := by
  rw [hs.exists_get?_iff_varAt?]
  constructor
  · rintro ⟨⟨id', k', w, hw, hname, htruth⟩, hnot⟩
    obtain ⟨id, k, v, -, hv⟩ := exists_innermost_of_varAt? hw hname
    have hfalse : ¬v.HasTruth := fun h => hnot ⟨v, hv.find?, h⟩
    refine ⟨id, k, v, hv, hfalse, id', k', w, ?_, hw, hname, htruth⟩
    -- neither inside the scope of `v` nor in it
    rcases Nat.lt_trichotomy id' id with hlt | rfl | hgt
    · exact hlt
    · have heq := hs.eq_of_varAt? hv.var hw (hname.trans hv.named.symm)
      exact absurd (heq ▸ htruth) hfalse
    · exact absurd hname (hv.inside id' k' w hgt hw)
  · rintro ⟨id, k, v, hv, hfalse, id', k', w, -, hw, hname, htruth⟩
    refine ⟨⟨id', k', w, hw, hname, htruth⟩, ?_⟩
    rintro ⟨v', hv', htruth'⟩
    obtain rfl : v = v' := Option.some.inj (hv.find?.symm.trans hv')
    exact hfalse htruth'

end Scopes

/-! ## Texts of one token -/

namespace Condition

variable {s : Scopes} {text : String} {t : Token}

theorem find?_not_isBlank {gap : List Char} (hgap : ∀ c ∈ gap, Text.isBlank c = true) {d : Char}
    (hd : Text.isBlank d = false) (rest : List Char) :
    (gap ++ d :: rest).find? (!Text.isBlank ·) = some d := by
  have hnone : gap.find? (!Text.isBlank ·) = none := by simpa using hgap
  rw [List.find?_append, hnone, Option.none_or, List.find?_cons_of_pos (by simp [hd])]

/-- A legal condition begins with a character of a term, blanks apart. -/
theorem exists_find?_of_check_eq_ok (h : check text s = .ok ()) :
    ∃ d, text.toList.find? (!Text.isBlank ·) = some d ∧ isTermChar d = true := by
  have hjoined := joined_iff_forall_isTerm.2 (check_eq_ok_iff_forall_isTerm.1 h)
  obtain ⟨piece, rest, hpiece, htext⟩ := hjoined.exists_first
  obtain ⟨before, term, after, rfl, hbefore, -, hne, hterm⟩ := exists_of_isTerm hpiece
  obtain ⟨d, more, rfl⟩ := List.exists_cons_of_ne_nil hne
  have hd : isTermChar d = true := hterm d List.mem_cons_self
  refine ⟨d, ?_, hd⟩
  rw [htext, List.append_assoc, List.append_assoc, List.cons_append]
  exact find?_not_isBlank hbefore (isBlank_of_isTermChar hd) _

/-- A token that begins with another character is no condition. -/
theorem check_ne_ok_of_first (h : tokenize text = some [t]) {d : Char} {more : List Char}
    (ht : t.text.toList = d :: more) (hblank : Text.isBlank d = false) (hd : isTermChar d = false) :
    check text s ≠ .ok () := by
  intro hok
  obtain ⟨gap, rest, htext, hgap, -⟩ := Token.exists_eq_append_of_scan_cons h
  obtain ⟨d', hfind, hd'⟩ := exists_find?_of_check_eq_ok hok
  rw [htext, ht, List.append_assoc, List.cons_append,
    find?_not_isBlank (fun c hc => Text.isBlank_of_isGap (hgap c hc)) hblank] at hfind
  obtain rfl : d = d' := Option.some.inj hfind
  rw [hd] at hd'
  cases hd'

/-- A token of such characters is a condition if it is a term. -/
theorem check_eq_ok_iff_of_isTermChar (h : tokenize text = some [t])
    (ht : ∀ c ∈ t.text.toList, isTermChar c = true) : check text s = .ok () ↔ IsTermToken s t := by
  obtain ⟨gap, rest, htext, hgap, -, -, hrest⟩ := Token.exists_eq_append_of_scan_cons h
  have hblank : ∀ c ∈ text.toList, Text.isBlank c = true → Token.isGap c = true := by
    intro c hc hb
    rw [htext] at hc
    rcases List.mem_append.1 hc with hc | hc
    · rcases List.mem_append.1 hc with hc | hc
      · exact hgap c hc
      · rw [isBlank_of_isTermChar (ht c hc)] at hb
        cases hb
    · exact Token.scan_eq_nil_iff.1 hrest c hc
  rw [check_eq_ok_iff_tokenize s hblank, h]
  constructor
  · rintro ⟨ts, hts, -, hplaces⟩
    obtain rfl : [t] = ts := Option.some.inj hts
    exact (hplaces 0 t rfl).1 rfl
  · intro hterm
    exact ⟨[t], rfl, (Alternating.single hterm).forall_getElem?⟩

/-- **A text of one operand is a legal condition if the operand is a term.** -/
theorem check_eq_ok_iff_isTermToken {o : Operand} (h : tokenize text = some [o.token]) :
    check text s = .ok () ↔ IsTermToken s o.token := by
  have hwf : o.token.WellFormed := Token.wellFormed_of_scan h _ (by simp)
  cases o with
  | var name => exact check_eq_ok_iff_of_isTermChar h (isTermChar_of_isWord hwf.1)
  | literal l =>
    cases l with
    | int | double | bool =>
      exact check_eq_ok_iff_of_isTermChar h (IsTermToken.isTermChar (s := s) trivial hwf)
    | char value =>
      obtain ⟨c, -, hvalue⟩ := hwf
      exact iff_of_false (check_ne_ok_of_first h hvalue rfl rfl) id
    | str value =>
      obtain ⟨body, hvalue, -⟩ := hwf
      exact iff_of_false (check_ne_ok_of_first h hvalue rfl rfl) id

end Condition

/-! ## Conditions and boolean values -/

theorem exists_eq_error_iff {α : Type} {e : Except Fault α} :
    (∃ fault, e = .error fault) ↔ ¬∃ a, e = .ok a := by
  cases e <;> simp

/-- A literal is a condition if its type is one that conditions take, and then
    it is a boolean value. -/
theorem Literal.check_and_valueFor {l : Literal} {text : String}
    (h : tokenize text = some [.literal l]) (s : Scopes) :
    (Condition.check text s = .ok () ↔ l.ty.isCondition = true) ∧
      ∀ value, s.valueFor .boolean (.literal l) = .ok value ↔
        l.ty.isCondition = true ∧ value = l.text := by
  constructor
  · rw [Condition.check_eq_ok_iff_isTermToken (o := .literal l) h]
    cases l <;> simp [Operand.token, Condition.IsTermToken, Literal.ty, Ty.isCondition]
  · intro value
    rw [Scopes.valueFor_literal_eq_ok_iff, Ty.accepts_boolean]

/-- **What a boolean variable can be given is a legal condition.** For a name
    the converse fails only where the variable that it means has no value, or is
    neither a number nor a truth value, and hides a variable of the same name
    further outside that has a value and is one or the other. Truth values and
    numbers are legal conditions and values of boolean variables; characters and
    strings are neither. -/
theorem condition_agrees_with_boolean (ops : List Operation) (text : String) :
    (∀ name, tokenize text = some [.ident name] →
      (∀ value, (session ops).valueFor .boolean (.var name) = .ok value →
        Condition.check text (session ops) = .ok ()) ∧
      (Condition.check text (session ops) = .ok () ∧
          (∃ fault, (session ops).valueFor .boolean (.var name) = .error fault) ↔
        ∃ id k v, (session ops).Innermost name id k v ∧ ¬v.HasTruth ∧
          ∃ id' k' w, id' < id ∧ (session ops).varAt? id' k' = some w ∧
            w.name = name ∧ w.HasTruth)) ∧
    ∀ l, tokenize text = some [.literal l] →
      ((l.ty = .int ∨ l.ty = .double ∨ l.ty = .boolean) →
        Condition.check text (session ops) = .ok () ∧
          (session ops).valueFor .boolean (.literal l) = .ok l.text) ∧
      ((l.ty = .char ∨ l.ty = .string) →
        (∃ fault, Condition.check text (session ops) = .error fault) ∧
          ∃ fault, (session ops).valueFor .boolean (.literal l) = .error fault) := by
  constructor
  · intro name htext
    have hcheck : Condition.check text (session ops) = .ok () ↔
        ∃ scope ∈ (session ops).toList, ∃ v, scope.get? name = some v ∧ v.HasTruth :=
      Condition.check_eq_ok_iff_isTermToken (o := .var name) htext
    refine ⟨fun value hvalue => ?_, ?_⟩
    · obtain ⟨v, hv, htruth⟩ := Scopes.exists_valueFor_boolean_iff.1 ⟨value, hvalue⟩
      obtain ⟨scope, hscope, hget⟩ := List.exists_of_findSome?_eq_some hv
      exact hcheck.2 ⟨scope, hscope, v, hget, htruth⟩
    · rw [hcheck, exists_eq_error_iff, Scopes.exists_valueFor_boolean_iff]
      exact (distinct_session ops).hidden_iff
  · intro l htext
    obtain ⟨hcheck, hvalue⟩ := l.check_and_valueFor htext (session ops)
    constructor
    · intro hty
      have hcondition : l.ty.isCondition = true := Condition.isCondition_eq_true_iff.2 hty
      exact ⟨hcheck.2 hcondition, (hvalue l.text).2 ⟨hcondition, rfl⟩⟩
    · intro hty
      have hcondition : ¬l.ty.isCondition = true := by
        rcases hty with h | h <;> simp [h, Ty.isCondition]
      refine ⟨exists_eq_error_iff.2 ?_, exists_eq_error_iff.2 ?_⟩
      · rintro ⟨u, hok⟩
        exact hcondition (hcheck.1 hok)
      · rintro ⟨value, hok⟩
        exact hcondition ((hvalue value).1 hok).1

/-- A name that means a string without a value is a legal condition, since it
    hides a number. A string is none, although a truth value stands between its
    operators. -/
theorem condition_of_hidden_int :
    Condition.check "x\t" (session [.define ⟨"x", .int, some "1", false⟩, .enter .method,
      .define ⟨"x", .string, none, false⟩]) = .ok () ∧
    (∃ id k v, (session [.define ⟨"x", .int, some "1", false⟩, .enter .method,
        .define ⟨"x", .string, none, false⟩]).Innermost "x" id k v ∧ ¬v.HasTruth ∧
      ∃ id' k' w, id' < id ∧ (session [.define ⟨"x", .int, some "1", false⟩, .enter .method,
        .define ⟨"x", .string, none, false⟩]).varAt? id' k' = some w ∧ w.name = "x" ∧ w.HasTruth) ∧
    ∃ fault, Condition.check "\x22||true||\x22" (session []) = .error fault := by
  have hcheck : Condition.check "x\t" (session [.define ⟨"x", .int, some "1", false⟩,
      .enter .method, .define ⟨"x", .string, none, false⟩]) = .ok () := by decide +kernel
  have hname := (condition_agrees_with_boolean [.define ⟨"x", .int, some "1", false⟩,
    .enter .method, .define ⟨"x", .string, none, false⟩] "x\t").1 "x" (by decide +kernel)
  have hliteral := (condition_agrees_with_boolean [] "\x22||true||\x22").2
    (.str "\x22||true||\x22") (by decide +kernel)
  exact ⟨hcheck, hname.2.1 ⟨hcheck, .unassignedVariable "x", by decide +kernel⟩,
    (hliteral.2 (.inr rfl)).1⟩

end LineCheck
