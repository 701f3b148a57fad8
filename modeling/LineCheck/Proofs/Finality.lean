import Mathlib.Data.Nat.Init
import LineCheck.Proofs.Change
import LineCheck.Proofs.Visits

/-!
Final variables.

While a scope is open its variables stay where they are, and only a variable
that is not final can get a new value (`Scope.Becomes`). Every change of the
scopes is of this kind (`keeps_of_change`), and so is every stretch of a run in
which a scope is not closed (`becomes_run`). A scope is known by its number: a
step opens or closes at most one scope, so as long as there is a scope with some
number it is the same scope.
-/

namespace LineCheck

/-! ## The life of a scope -/

/-- Lists that differ at one index. -/
theorem getElem?_append_cons {α : Type} (before after : List α) (x y : α) (k : Nat) :
    (before ++ y :: after)[k]? =
      if k = before.length then some y else (before ++ x :: after)[k]? := by
  rcases Nat.lt_trichotomy k before.length with hk | rfl | hk
  · rw [if_neg (by omega), List.getElem?_append_left hk, List.getElem?_append_left hk]
  · simp
  · obtain ⟨i, hi⟩ : ∃ i, k - before.length = i + 1 := ⟨k - before.length - 1, by omega⟩
    rw [if_neg (by omega), List.getElem?_append_right (by omega),
      List.getElem?_append_right (by omega), hi, List.getElem?_cons_succ, List.getElem?_cons_succ]

/-- What a variable can become while its scope is open. -/
inductive Variable.Becomes (u : Variable) : Variable → Prop
  | same : u.Becomes u
  | assigned (h : u.isFinal = false) (value : String) : u.Becomes { u with value := some value }

namespace Variable.Becomes

variable {u v w : Variable}

theorem trans (h : u.Becomes v) (h' : v.Becomes w) : u.Becomes w := by
  cases h with
  | same => exact h'
  | assigned hfinal value =>
    cases h' with
    | same => exact .assigned hfinal value
    | assigned _ value' => exact .assigned hfinal value'

theorem eq_of_isFinal (h : u.Becomes v) (hfinal : u.isFinal = true) : v = u := by
  cases h with
  | same => rfl
  | assigned hnot value => simp [hfinal] at hnot

end Variable.Becomes

/-- What a scope can become while it is open: its variables stay in their places. -/
structure Scope.Becomes (a b : Scope) : Prop where
  kind : b.kind = a.kind
  vars : ∀ (k : Nat) (u : Variable), a.vars[k]? = some u → ∃ v, b.vars[k]? = some v ∧ u.Becomes v

namespace Scope.Becomes

variable {a b c : Scope}

theorem refl (a : Scope) : a.Becomes a :=
  ⟨rfl, fun _ u hu => ⟨u, hu, .same⟩⟩

theorem trans (h : a.Becomes b) (h' : b.Becomes c) : a.Becomes c := by
  refine ⟨h'.kind.trans h.kind, ?_⟩
  intro k u hu
  obtain ⟨v, hv, huv⟩ := h.vars k u hu
  obtain ⟨w, hw, hvw⟩ := h'.vars k v hv
  exact ⟨w, hw, huv.trans hvw⟩

theorem push (a : Scope) (v : Variable) : a.Becomes (a.push v) := by
  refine ⟨rfl, ?_⟩
  intro k u hu
  obtain ⟨hk, -⟩ := List.getElem?_eq_some_iff.1 hu
  exact ⟨u, by rw [Scope.push, List.getElem?_append_left hk, hu], .same⟩

/-- A new value for one variable that is not final. -/
theorem set {v : Variable} (hv : v.isFinal = false) (kind : ScopeKind)
    (before after : List Variable) (value : String) :
    Becomes ⟨kind, before ++ v :: after⟩
      ⟨kind, before ++ { v with value := some value } :: after⟩ := by
  refine ⟨rfl, ?_⟩
  intro k u hu
  rw [getElem?_append_cons before after v { v with value := some value } k]
  by_cases hk : k = before.length
  · subst hk
    obtain rfl : v = u := by simpa using hu
    exact ⟨_, if_pos rfl, .assigned hv value⟩
  · exact ⟨u, by rw [if_neg hk, hu], .same⟩

end Scope.Becomes

namespace Scopes

/-- The open scope with this number. -/
def scope? (s : Scopes) (id : Nat) : Option Scope :=
  s.toList.reverse[id]?

/-- The variable at an index of the open scope with this number. -/
def varAt? (s : Scopes) (id index : Nat) : Option Variable :=
  (s.scope? id).bind (·.vars[index]?)

theorem exists_scope?_eq_some {s : Scopes} {id : Nat} (h : id < s.toList.length) :
    ∃ scope, s.scope? id = some scope := by
  rw [← List.length_reverse] at h
  exact ⟨_, List.getElem?_eq_getElem h⟩

theorem lt_length_of_scope?_eq_some {s : Scopes} {id : Nat} {scope : Scope}
    (h : s.scope? id = some scope) : id < s.toList.length := by
  rw [← List.length_reverse]
  exact (List.getElem?_eq_some_iff.1 h).1

theorem scope?_enter {s : Scopes} {id : Nat} (h : id < s.toList.length) (kind : ScopeKind) :
    (s.enter kind).scope? id = s.scope? id := by
  rw [scope?, scope?, toList_enter, List.reverse_cons,
    List.getElem?_append_left (by rwa [List.length_reverse])]

theorem scope?_leave {s : Scopes} {id : Nat} (h : id < s.leave.toList.length) :
    s.leave.scope? id = s.scope? id := by
  obtain ⟨current, outer⟩ := s
  cases outer with
  | nil => rfl
  | cons scope outer =>
    have houter : (⟨current, scope :: outer⟩ : Scopes).scope? id =
        ((scope :: outer).reverse ++ [current])[id]? := by rw [scope?, toList, List.reverse_cons]
    rw [houter, List.getElem?_append_left (by rwa [List.length_reverse])]
    rfl

theorem scope?_of_append_cons {s : Scopes} {inner outer : List Scope} {scope : Scope}
    (hs : s.toList = inner ++ scope :: outer) :
    s.scope? outer.length = some scope := by
  simp [scope?, hs]

/-- The scopes with greater numbers stand further inside. -/
theorem mem_inner_of_scope? {s : Scopes} {inner outer : List Scope} {scope scope' : Scope}
    (hs : s.toList = inner ++ scope :: outer) {id : Nat} (hid : outer.length < id)
    (h : s.scope? id = some scope') : scope' ∈ inner := by
  obtain ⟨i, hi⟩ : ∃ i, id - outer.reverse.length = i + 1 :=
    ⟨id - outer.length - 1, by rw [List.length_reverse]; omega⟩
  rw [scope?, hs, List.reverse_append, List.reverse_cons, List.append_assoc, List.singleton_append,
    List.getElem?_append_right (by rw [List.length_reverse]; omega), hi,
    List.getElem?_cons_succ] at h
  exact List.mem_reverse.1 (List.mem_of_getElem? h)

/-- Each scope that is open in both has become in the second what it can become. -/
def Keeps (s t : Scopes) : Prop :=
  ∀ id a b, s.scope? id = some a → t.scope? id = some b → a.Becomes b

theorem Keeps.refl (s : Scopes) : s.Keeps s := by
  intro id a b ha hb
  obtain rfl : a = b := Option.some.inj (ha.symm.trans hb)
  exact .refl a

theorem keeps_enter (s : Scopes) (kind : ScopeKind) : s.Keeps (s.enter kind) := by
  intro id a b ha hb
  rw [scope?_enter (lt_length_of_scope?_eq_some ha)] at hb
  exact Keeps.refl s id a b ha hb

theorem keeps_leave (s : Scopes) : s.Keeps s.leave := by
  intro id a b ha hb
  rw [scope?_leave (lt_length_of_scope?_eq_some hb)] at hb
  exact Keeps.refl s id a b ha hb

/-- One scope becomes what it can become, and the others stay as they are. -/
theorem keeps_of_becomes {s t : Scopes} {a b : Scope} (h : a.Becomes b) (inner outer : List Scope)
    (hs : s.toList = inner ++ a :: outer) (ht : t.toList = inner ++ b :: outer) : s.Keeps t := by
  intro id x y hx hy
  rw [scope?, hs, List.reverse_append, List.reverse_cons, List.append_assoc] at hx
  rw [scope?, ht, List.reverse_append, List.reverse_cons, List.append_assoc] at hy
  rcases Nat.lt_trichotomy id outer.reverse.length with hid | rfl | hid
  · rw [List.getElem?_append_left hid] at hx hy
    obtain rfl : x = y := Option.some.inj (hx.symm.trans hy)
    exact .refl x
  · obtain rfl : a = x := by simpa using hx
    obtain rfl : b = y := by simpa using hy
    exact h
  · obtain ⟨i, hi⟩ : ∃ i, id - outer.reverse.length = i + 1 :=
      ⟨id - outer.reverse.length - 1, by omega⟩
    rw [List.getElem?_append_right (by omega), hi, List.singleton_append,
      List.getElem?_cons_succ] at hx hy
    obtain rfl : x = y := Option.some.inj (hx.symm.trans hy)
    exact .refl x

theorem keeps_push (s : Scopes) (v : Variable) : s.Keeps (s.push v) :=
  keeps_of_becomes (.push s.current v) [] s.outer rfl rfl

/-- **A change keeps the scopes that stay open.** -/
theorem keeps_of_change {s t : Scopes} (h : Change s t) : s.Keeps t := by
  cases h with
  | same => exact .refl s
  | enter kind => exact keeps_enter s kind
  | leave => exact keeps_leave s
  | receive hdef =>
    obtain ⟨-, rfl⟩ := define_eq_ok_iff.1 hdef
    exact keeps_push s _
  | declare _ hdecl =>
    obtain ⟨-, value, -, rfl⟩ := declareItem_eq_ok_iff.1 hdecl
    exact keeps_push s _
  | assign _ hassign =>
    obtain ⟨v, value, hfinal, -, hset⟩ := assign_eq_ok_iff.1 hassign
    obtain ⟨inner, kind, before, after, outer, -, -, -, hs, ht⟩ := hset
    exact keeps_of_becomes (.set hfinal kind before after value) inner outer hs ht

end Scopes

/-- In a run, a scope that is not closed becomes what it can become. -/
theorem becomes_run (texts : List String) {n m id : Nat} (hnm : n ≤ m)
    (hopen : ∀ j, n ≤ j → j ≤ m → id < (run texts j).scopes.toList.length) {a : Scope}
    (ha : (run texts n).scopes.scope? id = some a) :
    ∃ b, (run texts m).scopes.scope? id = some b ∧ a.Becomes b := by
  induction hnm with
  | refl => exact ⟨a, ha, .refl a⟩
  | @step m hnm ih =>
    obtain ⟨b, hb, hab⟩ := ih fun j hn hm => hopen j hn (Nat.le_succ_of_le hm)
    have hlast : id < (run texts (m + 1)).scopes.toList.length :=
      hopen (m + 1) (Nat.le_succ_of_le hnm) (Nat.le_refl _)
    obtain ⟨c, hc⟩ := Scopes.exists_scope?_eq_some hlast
    exact ⟨c, hc, hab.trans (Scopes.keeps_of_change (change_run texts m) id b c hb hc)⟩

theorem varAt?_run (texts : List String) {n m id k : Nat} (hnm : n ≤ m)
    (hopen : ∀ j, n ≤ j → j ≤ m → id < (run texts j).scopes.toList.length) {v : Variable}
    (hv : (run texts n).scopes.varAt? id k = some v) (hfinal : v.isFinal = true) :
    (run texts m).scopes.varAt? id k = some v := by
  obtain ⟨a, ha, hak⟩ := Option.bind_eq_some_iff.1 hv
  obtain ⟨b, hb, hab⟩ := becomes_run texts hnm hopen ha
  obtain ⟨u, hu, hvu⟩ := hab.vars k v hak
  rw [hvu.eq_of_isFinal hfinal] at hu
  exact Option.bind_eq_some_iff.2 ⟨b, hb, hu⟩

/-! ## Final variables have a value -/

/-- A final variable has a value. -/
def Variable.FinalAssigned (v : Variable) : Prop :=
  v.isFinal = true → v.isAssigned = true

/-- Every change keeps final variables assigned: a parameter counts as assigned,
    and a declaration of a final variable needs a value. -/
theorem finalAssigned_of_change {s t : Scopes} (h : s.Every Variable.FinalAssigned)
    (hchange : Change s t) : t.Every Variable.FinalAssigned := by
  cases hchange with
  | same => exact h
  | enter kind => exact h.enter kind
  | leave => exact h.leave
  | receive hdef =>
    obtain ⟨-, rfl⟩ := Scopes.define_eq_ok_iff.1 hdef
    exact h.push fun _ => rfl
  | declare _ hdecl =>
    obtain ⟨-, value, hvalue, rfl⟩ := Scopes.declareItem_eq_ok_iff.1 hdecl
    refine h.push ?_
    intro hfinal
    rcases Scopes.initialValue_eq_ok_iff.1 hvalue with ⟨-, hnot, -⟩ | ⟨o, text, -, -, rfl⟩
    · rw [hnot] at hfinal
      cases hfinal
    · rfl
  | assign _ hassign =>
    obtain ⟨v, value, -, -, hset⟩ := Scopes.assign_eq_ok_iff.1 hassign
    exact h.sets hset fun _ => rfl

/-! ## Assignments to final variables -/

theorem Scopes.assign_of_isFinal {s : Scopes} {a : Assignment} {v : Variable}
    (hv : s.find? a.name = some v) (hfinal : v.isFinal = true) :
    s.assign a = .error (.finalReassignment a.name) := by
  rw [← map_snd_locate?] at hv
  obtain ⟨⟨id, u⟩, hl, rfl⟩ := Option.map_eq_some_iff.1 hv
  have hu : u.isFinal = true := hfinal
  simp [assign, hl, hu]

/-- Inside a method, an assignment to a final variable ends the check. -/
theorem step_of_final_assignment {c : Config} {line : Line} (hc : c.visit? = some line)
    (hk : line.kind = .statement) {a : Assignment}
    (ht : Statement.ofText? line.text = some (.assignment a)) {v : Variable}
    (hv : c.scopes.find? a.name = some v) (hfinal : v.isFinal = true) :
    step c = ⟨.done (.error ⟨line.number, .finalReassignment a.name⟩), c.scopes⟩ := by
  obtain ⟨stage, s⟩ := c
  cases stage with
  | surveying | declaring | between | receiving | done => cases hc
  | walking w lines nesting returned =>
    cases lines with
    | nil => cases hc
    | cons first lines =>
      obtain rfl : first = line := Option.some.inj hc
      have hcheck : checkStatement w.found.methods first s =
          .error ⟨first.number, .finalReassignment a.name⟩ s := by
        rw [checkStatement, ht]
        refine atLine_eq_error_iff.2 ⟨rfl, ?_⟩
        exact Resolving.update_eq_error_iff.2 ⟨Scopes.assign_of_isFinal hv hfinal, rfl⟩
      simp only [step, stepWalk, hk, ht, hcheck, Config.after]

/-- Outside all methods an assignment is not carried out, whatever its name
    means: it ends the check. -/
theorem step_of_global_assignment {c : Config} {seen : List Line} {p : Progress} {text : String}
    {rest : List String} (hc : c.stage = .surveying seen p (text :: rest)) (hd : p.depth = 0)
    (hk : LineKind.ofText? text = some .statement) {a : Assignment}
    (ht : Statement.ofText? text = some (.assignment a)) :
    step c = ⟨.done (.error ⟨seen.length + 1, .illegalGlobalStatement⟩), c.scopes⟩ := by
  have hline : surveyLine (seen.length + 1) text p.methods .statement 0 c.scopes =
      .error ⟨seen.length + 1, .illegalGlobalStatement⟩ c.scopes := by
    rw [surveyLine, globalStatement, ht]
    rfl
  simp only [step, hc, stepSurvey, hk, hd, ht, hline, Config.after]

theorem checkLines_of_done {texts : List String} {n : Nat} {verdict : Except Violation Summary}
    (h : (run texts n).stage = .done verdict) : checkLines texts = verdict := by
  rw [checkLines, ← outcome_run texts n, Config.outcome, h]
  cases verdict <;> rfl

/-! ## Runs -/

/-- **Final variables hold a value, and never another one.** At every step of a
    check a final variable has a value, and the variable stays the same as long
    as its scope is not closed, whatever the scopes inside declare. An
    assignment inside a method to a name that means a final variable ends the
    check at its line; an assignment outside all methods ends it in any case. -/
theorem final_isAssigned_and_unchanged (texts : List String) :
    (∀ n, (run texts n).outcome = checkProgram texts .initial ∧
      ∀ scope ∈ (run texts n).scopes.toList, ∀ v ∈ scope.vars, v.isFinal = true →
        ∃ value, v.value = some value) ∧
    (∀ n m id k v, n ≤ m →
      (∀ j, n ≤ j → j ≤ m → id < (run texts j).scopes.toList.length) →
      (run texts n).scopes.varAt? id k = some v → v.isFinal = true →
        (run texts m).scopes.varAt? id k = some v) ∧
    (∀ n line a v, (run texts n).visit? = some line → line.kind = .statement →
      Statement.ofText? line.text = some (.assignment a) →
      (run texts n).scopes.find? a.name = some v → v.isFinal = true →
        run texts (n + 1) =
          ⟨.done (.error ⟨line.number, .finalReassignment a.name⟩), (run texts n).scopes⟩ ∧
        checkLines texts = .error ⟨line.number, .finalReassignment a.name⟩) ∧
    ∀ n seen p text rest a, (run texts n).stage = .surveying seen p (text :: rest) → p.depth = 0 →
      LineKind.ofText? text = some .statement → Statement.ofText? text = some (.assignment a) →
        run texts (n + 1) =
          ⟨.done (.error ⟨seen.length + 1, .illegalGlobalStatement⟩), (run texts n).scopes⟩ ∧
        checkLines texts = .error ⟨seen.length + 1, .illegalGlobalStatement⟩ := by
  have hassigned : ∀ n, (run texts n).scopes.Every Variable.FinalAssigned :=
    (invariant_run Scopes.Every.initial (fun _ _ hst hs => finalAssigned_of_change hs hst) texts).1
  have hends : ∀ n v, step (run texts n) = ⟨.done (.error v), (run texts n).scopes⟩ →
      run texts (n + 1) = ⟨.done (.error v), (run texts n).scopes⟩ ∧
        checkLines texts = .error v := by
    intro n v hstep
    rw [← run_succ] at hstep
    exact ⟨hstep, checkLines_of_done (n := n + 1) (by rw [hstep])⟩
  refine ⟨fun n => ⟨outcome_run texts n, ?_⟩, ?_, ?_, ?_⟩
  · intro scope hscope v hv hfinal
    exact Option.isSome_iff_exists.1 (hassigned n scope hscope v hv hfinal)
  · intro n m id k v hnm hopen hv hfinal
    exact varAt?_run texts hnm hopen hv hfinal
  · intro n line a v hvisit hk ht hv hfinal
    exact hends n _ (step_of_final_assignment hvisit hk ht hv hfinal)
  · intro n seen p text rest a hstage hd hk ht
    exact hends n _ (step_of_global_assignment hstage hd hk ht)

/-- A final parameter is hidden by a variable of a block, which is assigned and
    discarded. -/
theorem final_parameter_unchanged_in_block :
    (run ["void f(final int a) \x7b", "if (true) \x7b", "int a = 2;", "a = 3;", "\x7d", "a = 4;",
      "return;", "\x7d"] 18).scopes.varAt? 1 0 = some ⟨"a", .int, some "", true⟩ ∧
    checkLines ["void f(final int a) \x7b", "if (true) \x7b", "int a = 2;", "a = 3;", "\x7d",
      "a = 4;", "return;", "\x7d"] = .error ⟨6, .finalReassignment "a"⟩ := by
  have h := final_isAssigned_and_unchanged ["void f(final int a) \x7b", "if (true) \x7b",
    "int a = 2;", "a = 3;", "\x7d", "a = 4;", "return;", "\x7d"]
  refine ⟨h.2.1 11 18 1 0 _ (by decide) (by decide +kernel) (by decide +kernel) rfl, ?_⟩
  exact (h.2.2.1 18 ⟨6, "a = 4;", 1, .statement⟩ ⟨"a", .literal (.int "4")⟩
    ⟨"a", .int, some "", true⟩ (by decide +kernel) rfl (by decide +kernel)
    (by decide +kernel) rfl).2

/-- Not every assignment to a final variable is refused for that: outside all
    methods, no assignment is read as one. -/
theorem final_assigned_outside_methods :
    Statement.ofText? "a = 2;" = some (.assignment ⟨"a", .literal (.int "2")⟩) ∧
    (scopesAfter (checkProgram ["final int a = 1;", "a = 2;"] .initial)).find? "a" =
      some ⟨"a", .int, some "1", true⟩ ∧
    checkLines ["final int a = 1;", "a = 2;"] = .error ⟨2, .illegalGlobalStatement⟩ ∧
    checkLines ["final int a = 1;", "a = 2;"] ≠ .error ⟨2, .finalReassignment "a"⟩ := by
  decide +kernel

end LineCheck
