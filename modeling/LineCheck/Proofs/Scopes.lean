import LineCheck.Proofs.Checking

/-!
What the single changes and tests of the open scopes do.

* `declareItem_eq_ok_iff`, `define_eq_ok_iff`: a new variable is added to the
  current scope;
* `assign_eq_ok_iff`: an assignment changes the value of one variable, the one
  its name means (`Scopes.Sets`), and nothing else;
* `checkCall_eq_ok_iff`, `Condition.check_eq_ok_iff`: a call and a condition are
  legal if their arguments and their terms are.
-/

namespace LineCheck

/-! ## One scope -/

namespace Scope

theorem get?_eq_some_iff {s : Scope} {name : String} {v : Variable} :
    s.get? name = some v ↔ v.name = name ∧
      ∃ before after, s.vars = before ++ v :: after ∧ ∀ u ∈ before, u.name ≠ name := by
  simp [get?, List.find?_eq_some_iff_append]

theorem get?_eq_none_iff {s : Scope} {name : String} :
    s.get? name = none ↔ ∀ v ∈ s.vars, v.name ≠ name := by
  simp [get?]

theorem setValue?_append {name : String} {before : List Variable}
    (hbefore : ∀ u ∈ before, u.name ≠ name) {v : Variable} (hv : v.name = name) (value : String)
    (after : List Variable) :
    setValue? name value (before ++ v :: after) =
      some (before ++ { v with value := some value } :: after) := by
  induction before with
  | nil => simp [setValue?, hv]
  | cons u before ih =>
    have hu : u.name ≠ name := hbefore u (by simp)
    simp [setValue?, hu, ih fun w hw => hbefore w (by simp [hw])]

end Scope

/-! ## All scopes -/

namespace Scopes

theorem length_toList (s : Scopes) : s.toList.length = s.currentId + 1 :=
  rfl

@[simp]
theorem currentId_enter (s : Scopes) (kind : ScopeKind) :
    (s.enter kind).currentId = s.currentId + 1 :=
  rfl

@[simp]
theorem currentId_leave (s : Scopes) : s.leave.currentId = s.currentId - 1 := by
  obtain ⟨current, outer⟩ := s
  cases outer <;> rfl

theorem toList_leave {s : Scopes} (h : 0 < s.currentId) : s.leave.toList = s.toList.drop 1 := by
  obtain ⟨current, outer⟩ := s
  cases outer with
  | nil => exact absurd h (Nat.lt_irrefl 0)
  | cons scope outer => rfl

@[simp]
theorem currentId_push (s : Scopes) (v : Variable) : (s.push v).currentId = s.currentId :=
  rfl

theorem toList_injective {s s' : Scopes} (h : s.toList = s'.toList) : s = s' := by
  obtain ⟨current, outer⟩ := s
  obtain ⟨current', outer'⟩ := s'
  cases h
  rfl

theorem exists_toList_eq {scopes : List Scope} (h : scopes ≠ []) :
    ∃ s : Scopes, s.toList = scopes := by
  obtain ⟨current, outer, rfl⟩ := List.exists_cons_of_ne_nil h
  exact ⟨⟨current, outer⟩, rfl⟩

/-! ### Values -/

theorem valueFor_var_eq_ok_iff {s : Scopes} {target : Ty} {name value : String} :
    s.valueFor target (.var name) = .ok value ↔
      ∃ v, s.find? name = some v ∧ v.value = some value ∧ target.accepts v.ty = true := by
  rw [valueFor]
  cases s.find? name with
  | none => simp
  | some v =>
    unfold Variable.valueFor
    cases hv : v.value with
    | none => simp [hv]
    | some value' => by_cases ha : target.accepts v.ty = true <;> simp [hv, ha]

theorem valueFor_literal_eq_ok_iff {s : Scopes} {target : Ty} {l : Literal} {value : String} :
    s.valueFor target (.literal l) = .ok value ↔
      target.accepts l.ty = true ∧ value = l.text := by
  rw [valueFor, Literal.valueFor, Ty.acceptsLiteral]
  by_cases ha : target.accepts l.ty = true <;> simp [ha, eq_comm]

/-! ### New variables -/

theorem define_eq_ok_iff {s s' : Scopes} {v : Variable} :
    s.define v = .ok s' ↔ s.current.get? v.name = none ∧ s' = s.push v := by
  unfold define
  cases s.current.get? v.name <;> simp [eq_comm]

theorem declareItem_eq_ok_iff {s s' : Scopes} {isFinal : Bool} {ty : Ty} {d : Declarator} :
    declareItem isFinal ty d s = .ok s' ↔ s.current.get? d.name = none ∧
      ∃ value, s.initialValue isFinal ty d = .ok value ∧
        s' = s.push ⟨d.name, ty, value, isFinal⟩ := by
  unfold declareItem
  cases s.current.get? d.name <;> cases s.initialValue isFinal ty d <;> simp [Except.map, eq_comm]

theorem initialValue_eq_ok_iff {s : Scopes} {isFinal : Bool} {ty : Ty} {d : Declarator}
    {value : Option String} :
    s.initialValue isFinal ty d = .ok value ↔
      (d.value = none ∧ isFinal = false ∧ value = none) ∨
        ∃ operand text, d.value = some operand ∧ s.valueFor ty operand = .ok text ∧
          value = some text := by
  unfold initialValue
  cases d.value with
  | none => cases isFinal <;> simp [eq_comm]
  | some operand => cases h : s.valueFor ty operand <;> simp [Except.map, h, eq_comm]

/-! ### New values -/

theorem locateIn?_eq_some_iff {name : String} {scopes : List Scope} {id : Nat} {v : Variable} :
    locateIn? name scopes = some (id, v) ↔
      ∃ inner scope outer, scopes = inner ++ scope :: outer ∧
        (∀ t ∈ inner, t.get? name = none) ∧ scope.get? name = some v ∧ outer.length = id := by
  induction scopes with
  | nil => simp [locateIn?]
  | cons scope outer ih =>
    rw [locateIn?]
    cases h : scope.get? name with
    | some u =>
      constructor
      · intro heq
        cases heq
        exact ⟨[], scope, outer, rfl, by simp, h, rfl⟩
      · rintro ⟨inner, scope', outer', hs, hi, hv, rfl⟩
        cases inner with
        | nil => cases hs; simp_all
        | cons t inner =>
          cases hs
          simp_all
    | none =>
      rw [ih]
      constructor
      · rintro ⟨inner, scope', outer', rfl, hi, hv, hid⟩
        exact ⟨scope :: inner, scope', outer', rfl, by simpa [h] using hi, hv, hid⟩
      · rintro ⟨inner, scope', outer', hs, hi, hv, hid⟩
        cases inner with
        | nil => cases hs; simp_all
        | cons t inner =>
          cases hs
          exact ⟨inner, scope', outer', rfl, fun u hu => hi u (by simp [hu]), hv, hid⟩

theorem setIn?_append (inner : List Scope) (scope : Scope) (outer : List Scope)
    (name value : String) :
    setIn? outer.length name value (inner ++ scope :: outer) =
      (scope.set? name value).map (inner ++ · :: outer) := by
  induction inner with
  | nil => simp [setIn?]
  | cons t inner ih =>
    have hne : (inner ++ scope :: outer).length ≠ outer.length := by simp; omega
    rw [List.cons_append, setIn?, if_neg hne, ih]
    simp [Function.comp_def]

/-- The variable `v` is what a name means, and the scopes after are those before
    with a new value for it. -/
def Sets (s : Scopes) (name value : String) (v : Variable) (s' : Scopes) : Prop :=
  ∃ inner kind before after outer, (∀ scope ∈ inner, scope.get? name = none) ∧
    (∀ u ∈ before, u.name ≠ name) ∧ v.name = name ∧
    s.toList = inner ++ ⟨kind, before ++ v :: after⟩ :: outer ∧
    s'.toList = inner ++ ⟨kind, before ++ { v with value := some value } :: after⟩ :: outer

theorem Sets.length_toList {s s' : Scopes} {name value : String} {v : Variable}
    (h : s.Sets name value v s') : s'.toList.length = s.toList.length := by
  obtain ⟨inner, kind, before, after, outer, -, -, -, hs, hs'⟩ := h
  simp [hs, hs']

theorem Sets.currentId {s s' : Scopes} {name value : String} {v : Variable}
    (h : s.Sets name value v s') : s'.currentId = s.currentId := by
  have := h.length_toList
  simpa [Scopes.length_toList] using this

theorem Sets.inner {s t : Scopes} {name value : String} {v : Variable}
    (h : s.Sets name value v t) {scope : Scope} (hscope : scope.get? name = none) :
    Sets ⟨scope, s.toList⟩ name value v ⟨scope, t.toList⟩ := by
  obtain ⟨inner, kind, before, after, outer, hinner, hbefore, hname, hs, ht⟩ := h
  refine ⟨scope :: inner, kind, before, after, outer, ?_, hbefore, hname, ?_, ?_⟩
  · intro scope' hmem
    rcases List.mem_cons.1 hmem with rfl | hmem
    · exact hscope
    · exact hinner scope' hmem
  · rw [toList, hs, List.cons_append]
  · rw [toList, ht, List.cons_append]

/-- Setting a variable of a scope, where the scopes are known. -/
theorem set?_eq {s : Scopes} {inner outer : List Scope} {kind : ScopeKind}
    {before after : List Variable} {v : Variable} {name : String} (hname : v.name = name)
    (hbefore : ∀ u ∈ before, u.name ≠ name)
    (hs : s.toList = inner ++ ⟨kind, before ++ v :: after⟩ :: outer) (value : String) :
    (s.set? outer.length name value).map toList =
      some (inner ++ ⟨kind, before ++ { v with value := some value } :: after⟩ :: outer) := by
  rw [map_toList_set?, hs, setIn?_append, Scope.set?, Scope.setValue?_append hbefore hname]
  rfl

/-- A name that is found can be given a value. -/
theorem exists_sets_of_locate? {s : Scopes} {name : String} {id : Nat} {v : Variable}
    (h : s.locate? name = some (id, v)) (value : String) :
    ∃ s', s.set? id name value = some s' ∧ s.Sets name value v s' := by
  obtain ⟨inner, ⟨kind, vars⟩, outer, hs, hinner, hv, rfl⟩ := locateIn?_eq_some_iff.1 h
  obtain ⟨hname, before, after, rfl, hbefore⟩ := Scope.get?_eq_some_iff.1 hv
  obtain ⟨s', hset, hs'⟩ := Option.map_eq_some_iff.1 (set?_eq hname hbefore hs value)
  exact ⟨s', hset, inner, kind, before, after, outer, hinner, hbefore, hname, hs, hs'⟩

theorem Sets.locate? {s s' : Scopes} {name value : String} {v : Variable}
    (h : s.Sets name value v s') :
    ∃ id, s.locate? name = some (id, v) ∧ s.set? id name value = some s' := by
  obtain ⟨inner, kind, before, after, outer, hinner, hbefore, hname, hs, hs'⟩ := h
  refine ⟨outer.length, ?_, ?_⟩
  · exact locateIn?_eq_some_iff.2 ⟨inner, _, outer, hs, hinner,
      Scope.get?_eq_some_iff.2 ⟨hname, before, after, rfl, hbefore⟩, rfl⟩
  · obtain ⟨t, hset, ht⟩ := Option.map_eq_some_iff.1 (set?_eq hname hbefore hs value)
    rw [hset, toList_injective (ht.trans hs'.symm)]

/-- **An assignment gives a new value to the variable that its name means.** The
    variable is not final, and the value is one of its type. -/
theorem assign_eq_ok_iff {a : Assignment} {s s' : Scopes} :
    s.assign a = .ok s' ↔ ∃ v value, v.isFinal = false ∧ s.valueFor v.ty a.value = .ok value ∧
      s.Sets a.name value v s' := by
  constructor
  · intro h
    unfold assign at h
    split at h
    · cases h
    · rename_i id v hl
      split at h
      · cases h
      · rename_i hfinal
        cases hv : s.valueFor v.ty a.value with
        | error fault => simp [hv, Except.map] at h
        | ok value =>
          obtain ⟨t, hset, ht⟩ := exists_sets_of_locate? hl value
          obtain rfl : t = s' := by simpa [hv, Except.map, hset] using h
          exact ⟨v, value, by simpa using hfinal, hv, ht⟩
  · rintro ⟨v, value, hfinal, hv, h⟩
    obtain ⟨id, hl, hset⟩ := h.locate?
    simp [assign, hl, hfinal, hv, Except.map, hset]

end Scopes

/-! ## Properties of all variables -/

/-- All variables of all open scopes have a property. -/
def Scopes.Every (P : Variable → Prop) (s : Scopes) : Prop :=
  ∀ scope ∈ s.toList, ∀ v ∈ scope.vars, P v

namespace Scopes.Every

variable {P : Variable → Prop} {s t : Scopes}

theorem initial : Scopes.initial.Every P := by
  intro scope hscope v hv
  obtain rfl : scope = .empty .global := by simpa [Scopes.initial, toList] using hscope
  simp [Scope.empty] at hv

theorem find? (h : s.Every P) {name : String} {v : Variable} (hv : s.find? name = some v) :
    P v := by
  obtain ⟨scope, hscope, hget⟩ := List.exists_of_findSome?_eq_some hv
  exact h scope hscope v (List.mem_of_find?_eq_some hget)

theorem enter (h : s.Every P) (kind : ScopeKind) : (s.enter kind).Every P := by
  intro scope hscope v hv
  rw [toList_enter] at hscope
  rcases List.mem_cons.1 hscope with rfl | hscope
  · simp [Scope.empty] at hv
  · exact h scope hscope v hv

theorem leave (h : s.Every P) : s.leave.Every P := by
  obtain ⟨current, outer⟩ := s
  cases outer with
  | nil => exact h
  | cons scope outer =>
    intro scope' hscope'
    exact h scope' (List.mem_cons_of_mem _ hscope')

theorem push (h : s.Every P) {v : Variable} (hv : P v) : (s.push v).Every P := by
  intro scope hscope u hu
  rcases List.mem_cons.1 hscope with rfl | hscope
  · rcases List.mem_append.1 hu with hu | hu
    · exact h s.current List.mem_cons_self u hu
    · obtain rfl : u = v := by simpa using hu
      exact hv
  · exact h scope (List.mem_cons_of_mem _ hscope) u hu

theorem sets (h : s.Every P) {name value : String} {v : Variable} (hset : s.Sets name value v t)
    (hv : P { v with value := some value }) : t.Every P := by
  obtain ⟨inner, kind, before, after, outer, -, -, -, hs, ht⟩ := hset
  intro scope hscope u hu
  rw [ht] at hscope
  have hrest : ∀ {scope}, scope ∈ inner ∨ scope ∈ outer → ∀ u ∈ scope.vars, P u := by
    intro scope hmem
    refine h scope ?_
    rw [hs]
    rcases hmem with hmem | hmem
    · simp [hmem]
    · simp [hmem]
  rcases List.mem_append.1 hscope with hinner | hscope
  · exact hrest (.inl hinner) u hu
  · rcases List.mem_cons.1 hscope with rfl | houter
    · -- the scope that has the variable: only its value is new
      rcases List.mem_append.1 hu with hu | hu
      · exact h ⟨kind, before ++ v :: after⟩ (by simp [hs]) u (by simp [hu])
      · rcases List.mem_cons.1 hu with rfl | hu
        · exact hv
        · exact h ⟨kind, before ++ v :: after⟩ (by simp [hs]) u (by simp [hu])
    · exact hrest (.inr houter) u hu

end Scopes.Every

/-! ## Calls and conditions -/

theorem MethodTable.checkArgs_eq_ok_iff {s : Scopes} {method : String} {position : Nat}
    {params : List Variable} {args : List Operand} :
    checkArgs s method position params args = .ok () ↔
      ∀ pair ∈ params.zip args, ∃ value, s.valueFor pair.1.ty pair.2 = .ok value := by
  induction params generalizing position args with
  | nil => simp [checkArgs]
  | cons param params ih =>
    cases args with
    | nil => simp [checkArgs]
    | cons arg args =>
      rw [checkArgs, List.zip_cons_cons, List.forall_mem_cons]
      cases s.valueFor param.ty arg <;> simp [ih]

theorem MethodTable.checkCall_eq_ok_iff {methods : MethodTable} {c : Call} {s : Scopes} :
    methods.checkCall c s = .ok () ↔ ∃ m, methods.get? c.name = some m ∧
      m.params.length = c.args.length ∧
      ∀ pair ∈ m.params.zip c.args, ∃ value, s.valueFor pair.1.ty pair.2 = .ok value := by
  unfold checkCall
  cases methods.get? c.name with
  | none => simp
  | some m =>
    by_cases h : m.params.length = c.args.length
    · simp [h, checkArgs_eq_ok_iff]
    · simp [h]

/-- A legal call stays legal where there is the same method and the arguments
    still have values. -/
theorem MethodTable.checkCall_of_valueFor {methods methods' : MethodTable} {s s' : Scopes}
    {c : Call} (hget : ∀ {m}, methods.get? c.name = some m → methods'.get? c.name = some m)
    (hvalue : ∀ {target operand value}, s.valueFor target operand = .ok value →
      ∃ value', s'.valueFor target operand = .ok value')
    (h : methods.checkCall c s = .ok ()) : methods'.checkCall c s' = .ok () := by
  obtain ⟨m, hm, hlength, hargs⟩ := checkCall_eq_ok_iff.1 h
  refine checkCall_eq_ok_iff.2 ⟨m, hget hm, hlength, fun pair hpair => ?_⟩
  obtain ⟨value, hv⟩ := hargs pair hpair
  exact hvalue hv

namespace Condition

theorem checkTerms_eq_ok_iff {s : Scopes} {pieces : List (List Char)} :
    checkTerms s pieces = .ok () ↔ ∀ piece ∈ pieces, isTerm s (Text.trim piece) = true := by
  induction pieces with
  | nil => simp [checkTerms]
  | cons piece pieces ih =>
    by_cases h : isTerm s (Text.trim piece) = true
    · simp [checkTerms, h, ih]
    · simp [checkTerms, h]

theorem checkRuns_eq_ok_iff {s : Scopes} {whole : List Char} {runs : List (List Char)} :
    checkRuns s whole runs = .ok () ↔ ∀ run ∈ runs, isDangling run = false ∧
      ∀ piece ∈ splitAtDouble '&' run, isTerm s (Text.trim piece) = true := by
  induction runs with
  | nil => simp [checkRuns]
  | cons run runs ih =>
    rw [checkRuns, List.forall_mem_cons, ← ih, ← checkTerms_eq_ok_iff]
    by_cases h : isDangling run = true
    · simp [h]
    · cases checkTerms s (splitAtDouble '&' run) <;> simp [h]

theorem check_eq_ok_iff {condition : String} {s : Scopes} :
    check condition s = .ok () ↔ isDangling condition.toList = false ∧
      ∀ run ∈ splitAtDouble '|' condition.toList, isDangling run = false ∧
        ∀ piece ∈ splitAtDouble '&' run, isTerm s (Text.trim piece) = true := by
  unfold check
  by_cases h : isDangling condition.toList = true
  · simp [h]
  · simp [h, checkRuns_eq_ok_iff]

/-- A legal condition stays legal where its terms are terms. -/
theorem check_of_isTerm {s s' : Scopes} {condition : String}
    (hterm : ∀ {text}, isTerm s text = true → isTerm s' text = true)
    (h : check condition s = .ok ()) : check condition s' = .ok () := by
  obtain ⟨hwhole, hruns⟩ := check_eq_ok_iff.1 h
  refine check_eq_ok_iff.2 ⟨hwhole, fun run hrun => ⟨(hruns run hrun).1, fun piece hpiece => ?_⟩⟩
  exact hterm ((hruns run hrun).2 piece hpiece)

end Condition

/-! ## Declarations -/

section

variable {s s' : Scopes}

/-- Declared variables stand after the others in the current scope. -/
theorem names_of_declareItems {isFinal : Bool} {ty : Ty} {items : List Declarator} {u : Unit}
    (h : declareItems isFinal ty items s = .ok u s') :
    s'.outer = s.outer ∧ s'.current.vars.map Variable.name =
      s.current.vars.map Variable.name ++ items.map Declarator.name := by
  induction items generalizing s with
  | nil =>
    cases h
    simp
  | cons d ds ih =>
    obtain ⟨u', t, hd, ht⟩ := bind_eq_ok_iff.1 h
    obtain ⟨-, value, -, rfl⟩ :=
      Scopes.declareItem_eq_ok_iff.1 (Resolving.update_eq_ok_iff.1 hd)
    obtain ⟨houter, hnames⟩ := ih ht
    refine ⟨houter, ?_⟩
    rw [hnames]
    simp [Scopes.push, Scope.push]

theorem names_of_declare {d : Declaration} {n : Nat} (h : declare d s = .ok n s') :
    s'.outer = s.outer ∧ s'.current.vars.map Variable.name =
      s.current.vars.map Variable.name ++ d.items.map Declarator.name := by
  obtain ⟨u, t, hd, ht⟩ := bind_eq_ok_iff.1 h
  cases ht
  exact names_of_declareItems hd

theorem currentId_declare {d : Declaration} {n : Nat} (h : declare d s = .ok n s') :
    s'.currentId = s.currentId := by
  rw [Scopes.currentId, (names_of_declare h).1, ← Scopes.currentId]

end

end LineCheck
