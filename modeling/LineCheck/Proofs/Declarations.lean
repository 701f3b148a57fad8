import LineCheck.Proofs.Scopes

/-!
Declarations of several variables.

A declaration declares its variables one after the other: `declareItems_append`
cuts it in two. Where it stops, the variables before the fault are declared,
after those that the current scope had before, and nothing else has changed.
`Declared` says what these variables are, each in the scopes that the earlier
ones leave (`exists_declared`).
-/

namespace LineCheck

/-! ## One variable -/

namespace Scopes

/-- The variable that an item of a declaration gives. -/
inductive Admits (s : Scopes) (isFinal : Bool) (ty : Ty) (d : Declarator) : Variable → Prop
  | unassigned (hnew : s.current.get? d.name = none) (hvalue : d.value = none)
    (hfinal : isFinal = false) : Admits s isFinal ty d ⟨d.name, ty, none, isFinal⟩
  | assigned (hnew : s.current.get? d.name = none) {operand : Operand}
    (hvalue : d.value = some operand) {text : String}
    (htext : s.valueFor ty operand = .ok text) :
    Admits s isFinal ty d ⟨d.name, ty, some text, isFinal⟩

/-- What is wrong with an item of a declaration. -/
inductive Refuses (s : Scopes) (isFinal : Bool) (ty : Ty) (d : Declarator) : Fault → Prop
  | duplicate {v : Variable} (hold : s.current.get? d.name = some v) :
    Refuses s isFinal ty d (.duplicateVariable d.name)
  | uninitialized (hnew : s.current.get? d.name = none) (hvalue : d.value = none)
    (hfinal : isFinal = true) : Refuses s isFinal ty d (.uninitializedFinal d.name)
  | value (hnew : s.current.get? d.name = none) {operand : Operand}
    (hvalue : d.value = some operand) {fault : Fault}
    (hfault : s.valueFor ty operand = .error fault) : Refuses s isFinal ty d fault

variable {s : Scopes} {isFinal : Bool} {ty : Ty} {d : Declarator}

theorem Admits.declareItem {v : Variable} (h : s.Admits isFinal ty d v) :
    s.declareItem isFinal ty d = .ok (s.push v) := by
  rw [declareItem_eq_ok_iff]
  cases h with
  | unassigned hnew hvalue hfinal =>
    exact ⟨hnew, none, initialValue_eq_ok_iff.2 (.inl ⟨hvalue, hfinal, rfl⟩), rfl⟩
  | assigned hnew hvalue htext =>
    exact ⟨hnew, _, initialValue_eq_ok_iff.2 (.inr ⟨_, _, hvalue, htext, rfl⟩), rfl⟩

theorem Refuses.declareItem {fault : Fault} (h : s.Refuses isFinal ty d fault) :
    s.declareItem isFinal ty d = .error fault := by
  cases h with
  | duplicate hold => simp [Scopes.declareItem, hold]
  | uninitialized hnew hvalue hfinal =>
    simp [Scopes.declareItem, initialValue, hnew, hvalue, hfinal, Except.map]
  | value hnew hvalue hfault =>
    simp [Scopes.declareItem, initialValue, hnew, hvalue, hfault, Except.map]

theorem Admits.not_refuses {v : Variable} {fault : Fault} (h : s.Admits isFinal ty d v) :
    ¬ s.Refuses isFinal ty d fault := by
  intro hrefuses
  have heq := h.declareItem
  rw [hrefuses.declareItem] at heq
  cases heq

/-- An item is declared, or something is wrong with it. -/
theorem admits_or_refuses (s : Scopes) (isFinal : Bool) (ty : Ty) (d : Declarator) :
    (∃ v, s.Admits isFinal ty d v) ∨ ∃ fault, s.Refuses isFinal ty d fault := by
  cases hnew : s.current.get? d.name with
  | some v => exact .inr ⟨_, .duplicate hnew⟩
  | none =>
    cases hvalue : d.value with
    | none =>
      cases isFinal with
      | false => exact .inl ⟨_, .unassigned hnew hvalue rfl⟩
      | true => exact .inr ⟨_, .uninitialized hnew hvalue rfl⟩
    | some operand =>
      cases hoperand : s.valueFor ty operand with
      | ok text => exact .inl ⟨_, .assigned hnew hvalue hoperand⟩
      | error fault => exact .inr ⟨_, .value hnew hvalue hoperand⟩

/-! ## Several variables -/

/-- Adds variables to the current scope, after the others. -/
def pushAll (s : Scopes) (vars : List Variable) : Scopes :=
  { s with current := { s.current with vars := s.current.vars ++ vars } }

theorem pushAll_nil (s : Scopes) : s.pushAll [] = s := by
  simp [pushAll]

theorem pushAll_cons (s : Scopes) (v : Variable) (vars : List Variable) :
    s.pushAll (v :: vars) = (s.push v).pushAll vars := by
  simp [pushAll, push, Scope.push]

end Scopes

/-- The variables of the first items of a declaration, one for each, in the
    scopes that the items before it leave. -/
def Declared (isFinal : Bool) (ty : Ty) (s : Scopes) (items : List Declarator)
    (vars : List Variable) : Prop :=
  ∀ k v, vars[k]? = some v →
    ∃ d, items[k]? = some d ∧ (s.pushAll (vars.take k)).Admits isFinal ty d v

section

variable {isFinal : Bool} {ty : Ty} {s : Scopes}

theorem Declared.nil (items : List Declarator) : Declared isFinal ty s items [] := by
  intro k v hv
  simp at hv

theorem Declared.cons {d : Declarator} {v : Variable} (hd : s.Admits isFinal ty d v)
    {items : List Declarator} {vars : List Variable}
    (h : Declared isFinal ty (s.push v) items vars) :
    Declared isFinal ty s (d :: items) (v :: vars) := by
  intro k u hu
  cases k with
  | zero =>
    cases hu
    refine ⟨d, rfl, ?_⟩
    rwa [List.take_zero, Scopes.pushAll_nil]
  | succ k =>
    obtain ⟨d', hd', hadmits⟩ := h k u hu
    refine ⟨d', hd', ?_⟩
    rwa [List.take_succ_cons, Scopes.pushAll_cons]

/-- Where all items have been declared, none was refused. -/
theorem Declared.not_refuses {items : List Declarator} {vars : List Variable}
    (h : Declared isFinal ty s items vars) (hlength : vars.length = items.length) {k : Nat}
    {d : Declarator} (hd : items[k]? = some d) (fault : Fault) :
    ¬ (s.pushAll (vars.take k)).Refuses isFinal ty d fault := by
  obtain ⟨hk, -⟩ := List.getElem?_eq_some_iff.1 hd
  obtain ⟨d', hd', hadmits⟩ := h k _ (List.getElem?_eq_getElem (hlength ▸ hk))
  obtain rfl : d = d' := Option.some.inj (hd.symm.trans hd')
  exact hadmits.not_refuses

/-- **A declaration declares all its variables, or those before the first one
    that is refused.** -/
theorem exists_declared (isFinal : Bool) (ty : Ty) (items : List Declarator) (s : Scopes) :
    ∃ vars, Declared isFinal ty s items vars ∧
      ((vars.length = items.length ∧ declareItems isFinal ty items s = .ok () (s.pushAll vars)) ∨
        ∃ d fault, items[vars.length]? = some d ∧ (s.pushAll vars).Refuses isFinal ty d fault ∧
          declareItems isFinal ty items s = .error fault (s.pushAll vars)) := by
  induction items generalizing s with
  | nil => exact ⟨[], .nil [], .inl ⟨rfl, by rw [Scopes.pushAll_nil]; rfl⟩⟩
  | cons d items ih =>
    rw [declareItems]
    rcases s.admits_or_refuses isFinal ty d with ⟨v, hv⟩ | ⟨fault, hfault⟩
    · -- the others are declared where this one is
      obtain ⟨vars, hvars, hend⟩ := ih (s.push v)
      refine ⟨v :: vars, hvars.cons hv, ?_⟩
      rw [bind_of_ok (Resolving.update_of_ok hv.declareItem), Scopes.pushAll_cons]
      rcases hend with ⟨hlength, hok⟩ | ⟨d', fault, hd', hrefuses, herror⟩
      · exact .inl ⟨by simp [hlength], hok⟩
      · exact .inr ⟨d', fault, by simpa using hd', hrefuses, herror⟩
    · refine ⟨[], .nil _, .inr ⟨d, fault, rfl, ?_, ?_⟩⟩
      · rwa [Scopes.pushAll_nil]
      · rw [bind_of_error (Resolving.update_of_error hfault.declareItem), Scopes.pushAll_nil]

end

theorem declareItems_append (isFinal : Bool) (ty : Ty) (xs ys : List Declarator) :
    declareItems isFinal ty (xs ++ ys) = (do
      declareItems isFinal ty xs
      declareItems isFinal ty ys) := by
  induction xs with
  | nil => rfl
  | cons d xs ih => rw [List.cons_append, declareItems, declareItems, ih, bind_assoc]

theorem declare_append (isFinal : Bool) (ty : Ty) (xs ys : List Declarator) :
    declare ⟨isFinal, ty, xs ++ ys⟩ = (do
      let m ← declare ⟨isFinal, ty, xs⟩
      let n ← declare ⟨isFinal, ty, ys⟩
      return m + n) := by
  simp [declare, declareItems_append]

/-- **A declaration is the sequence of its items.** It can be cut in two
    anywhere: the second part is declared if the first one is, and the counts
    add up. However it ends, the variables of the items before the first one
    that is refused stand in the current scope, after the variables that were
    there before, and all else is as it was. It succeeds, with the number of its
    items, if none is refused. -/
theorem declare_in_sequence (isFinal : Bool) (ty : Ty) (line : Nat) (s : Scopes) :
    (∀ xs ys, (declare ⟨isFinal, ty, xs ++ ys⟩).atLine line s = (do
      let m ← (declare ⟨isFinal, ty, xs⟩).atLine line
      let n ← (declare ⟨isFinal, ty, ys⟩).atLine line
      return m + n : Checking Nat) s) ∧
    ∀ items, ∃ vars, Declared isFinal ty s items vars ∧
      ((vars.length = items.length ∧
          (declare ⟨isFinal, ty, items⟩).atLine line s = .ok items.length (s.pushAll vars)) ∨
        ∃ d fault, items[vars.length]? = some d ∧ (s.pushAll vars).Refuses isFinal ty d fault ∧
          (declare ⟨isFinal, ty, items⟩).atLine line s = .error ⟨line, fault⟩ (s.pushAll vars)) ∧
      ((∃ t, (declare ⟨isFinal, ty, items⟩).atLine line s = .ok items.length t) ↔
        ∀ k d fault, items[k]? = some d →
          ¬ (s.pushAll (vars.take k)).Refuses isFinal ty d fault) := by
  constructor
  · intro xs ys
    rw [declare_append, atLine_bind]
    simp only [atLine_bind]
    rfl
  · intro items
    obtain ⟨vars, hvars, hend⟩ := exists_declared isFinal ty items s
    refine ⟨vars, hvars, ?_⟩
    rcases hend with ⟨hlength, hok⟩ | ⟨d, fault, hd, hrefuses, herror⟩
    · have hdeclare : declare ⟨isFinal, ty, items⟩ s = .ok items.length (s.pushAll vars) :=
        bind_of_ok hok
      have hline : (declare ⟨isFinal, ty, items⟩).atLine line s =
          .ok items.length (s.pushAll vars) := atLine_eq_ok_iff.2 hdeclare
      exact ⟨.inl ⟨hlength, hline⟩, fun _ _ _ fault hd => hvars.not_refuses hlength hd fault,
        fun _ => ⟨_, hline⟩⟩
    · have hdeclare : declare ⟨isFinal, ty, items⟩ s = .error fault (s.pushAll vars) :=
        bind_of_error herror
      have hline : (declare ⟨isFinal, ty, items⟩).atLine line s =
          .error ⟨line, fault⟩ (s.pushAll vars) := atLine_eq_error_iff.2 ⟨rfl, hdeclare⟩
      refine ⟨.inr ⟨d, fault, hd, hrefuses, hline⟩, ?_, ?_⟩
      · rintro ⟨t, hok⟩
        rw [hline] at hok
        cases hok
      · intro hnone
        refine absurd ?_ (hnone vars.length d fault hd)
        rwa [List.take_length]

/-- The second variable takes its value from the first one, which hides a global
    variable. The third one has the name of the first, so the fourth is not
    declared. -/
theorem declare_of_repeated_name :
    (declare ⟨false, .int, [⟨"a", some (.literal (.int "1"))⟩, ⟨"b", some (.var "a")⟩] ++
        [⟨"a", none⟩, ⟨"c", none⟩]⟩).atLine 4
      ⟨.empty .method, [⟨.global, [⟨"a", .char, some "'x'", true⟩]⟩]⟩ =
      .error ⟨4, .duplicateVariable "a"⟩
        ⟨⟨.method, [⟨"a", .int, some "1", false⟩, ⟨"b", .int, some "1", false⟩]⟩,
          [⟨.global, [⟨"a", .char, some "'x'", true⟩]⟩]⟩ ∧
    ∃ vars, Declared false .int ⟨.empty .method, []⟩ [⟨"a", none⟩, ⟨"b", none⟩] vars ∧
      ∀ k d fault, [⟨"a", none⟩, ⟨"b", none⟩][k]? = some d →
        ¬ ((⟨.empty .method, []⟩ : Scopes).pushAll (vars.take k)).Refuses false .int d fault := by
  constructor
  · rw [(declare_in_sequence false .int 4 _).1]
    decide +kernel
  · obtain ⟨vars, hvars, -, hiff⟩ := (declare_in_sequence false .int 4 ⟨.empty .method, []⟩).2
      [⟨"a", none⟩, ⟨"b", none⟩]
    refine ⟨vars, hvars, hiff.1 ⟨⟨⟨.method, ?_⟩, []⟩, ?_⟩⟩
    · exact [⟨"a", .int, none, false⟩, ⟨"b", .int, none, false⟩]
    · decide +kernel

end LineCheck
