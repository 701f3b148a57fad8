import LineCheck.Proofs.Assignments
import LineCheck.Proofs.Declarations
import LineCheck.Proofs.Sessions

/-!
Scopes that are opened and closed in pairs.

In a session, let a scope be opened and closed again, with statements in between
that succeed or fail, and with other scopes that are opened and closed in pairs
(`Balanced`). All that is declared in between goes with the scopes that are
closed. So the scopes that were open before are as they were
(`Balanced.map_shape_outer`), but for values: each variable is followed through
the operations at its place, and there it has the value of the last assignment
that was carried out while it was what its name meant
(`Balanced.exists_lastAssigned`).
-/

namespace LineCheck

/-! ## Operations -/

namespace Operation

/-- Whether an operation is a statement, or a declaration or an assignment by
    itself. -/
def IsStatement : Operation → Prop
  | declare _ | assign _ | resolve _ _ => True
  | enter _ | leave | define _ | set _ _ _ => False

/-- The assignment that an operation is to carry out. -/
def assignment? : Operation → Option Assignment
  | assign a | resolve _ (.assignment a) => some a
  | _ => none

theorem apply_of_assignment? {op : Operation} {a : Assignment} (h : op.assignment? = some a)
    (s : Scopes) : op.apply s = scopesAfter (LineCheck.assign a s) := by
  cases op with
  | enter | leave | define | set | declare => cases h
  | assign a' =>
    cases h
    rfl
  | resolve methods st =>
    cases st with
    | declaration | call => cases h
    | assignment a' =>
      cases h
      rfl

/-- A declaration leaves the variables before its first fault, and a call leaves
    none. -/
theorem exists_apply_eq_pushAll {op : Operation} (hop : op.IsStatement) (h : op.assignment? = none)
    (s : Scopes) : ∃ vars, op.apply s = s.pushAll vars := by
  have hdeclare : ∀ d, ∃ vars, scopesAfter (LineCheck.declare d s) = s.pushAll vars := by
    intro d
    rw [scopesAfter_declare]
    obtain ⟨vars, -, ⟨-, hok⟩ | ⟨_, _, -, -, herror⟩⟩ := exists_declared d.isFinal d.ty d.items s
    · exact ⟨vars, by rw [hok]; rfl⟩
    · exact ⟨vars, by rw [herror]; rfl⟩
  cases op with
  | enter | leave | define | set => exact hop.elim
  | assign a => cases h
  | declare d => exact hdeclare d
  | resolve methods st =>
    cases st with
    | declaration d =>
      rw [apply, LineCheck.resolve, scopesAfter_discard]
      exact hdeclare d
    | assignment a => cases h
    | call c =>
      refine ⟨[], ?_⟩
      rw [apply, LineCheck.resolve, Resolving.require, Scopes.pushAll_nil]
      cases methods.checkCall c s <;> rfl

end Operation

/-- Statements, and scopes that are opened and closed in pairs. Of the scopes
    that are open at the beginning, the `n` innermost ones are closed as
    well. -/
inductive Balanced : Nat → List Operation → Prop
  | nil : Balanced 0 []
  | statement {n : Nat} {op : Operation} {ops : List Operation} (hop : op.IsStatement)
    (h : Balanced n ops) : Balanced n (op :: ops)
  | enter {n : Nat} {ops : List Operation} (kind : ScopeKind) (h : Balanced (n + 1) ops) :
    Balanced n (.enter kind :: ops)
  | leave {n : Nat} {ops : List Operation} (h : Balanced n ops) : Balanced (n + 1) (.leave :: ops)

theorem Balanced.append {n m : Nat} {ops ops' : List Operation} (h : Balanced n ops)
    (h' : Balanced m ops') : Balanced (n + m) (ops ++ ops') := by
  induction h with
  | nil => rwa [Nat.zero_add]
  | statement hop _ ih => exact .statement hop ih
  | enter kind _ ih => exact .enter kind (by rwa [Nat.add_right_comm] at ih)
  | leave _ ih =>
    rw [Nat.add_right_comm]
    exact .leave ih

namespace Scopes

/-- The open scopes after some operations. -/
def after (s : Scopes) (ops : List Operation) : Scopes :=
  ops.foldl Operation.apply s

theorem after_cons (s : Scopes) (op : Operation) (ops : List Operation) :
    s.after (op :: ops) = (op.apply s).after ops :=
  rfl

theorem after_concat (s : Scopes) (ops : List Operation) (op : Operation) :
    s.after (ops ++ [op]) = op.apply (s.after ops) := by
  rw [after, List.foldl_append, List.foldl_cons, List.foldl_nil, ← after]

/-! ## Assignments among operations -/

/-- The operation is an assignment that is carried out. What its name means is
    the variable at index `k` of scope `id`, which takes the value `text`. -/
def Assigns (s : Scopes) (op : Operation) (id k : Nat) (text : String) : Prop :=
  ∃ a v t, op.assignment? = some a ∧ LineCheck.assign a s = .ok () t ∧ s.Innermost a.name id k v ∧
    s.valueFor v.ty a.value = .ok text

/-- The operation with number `n` is an assignment to the variable at this place. -/
def AssignsAt (s : Scopes) (ops : List Operation) (n id k : Nat) (text : String) : Prop :=
  ∃ op, ops[n]? = some op ∧ (s.after (ops.take n)).Assigns op id k text

/-- What becomes of the variable `u` at a place: it stays as it is if it is
    never assigned, or else it is not final and takes the value of the last
    assignment. -/
inductive LastAssigned (s : Scopes) (ops : List Operation) (id k : Nat) (u : Variable) :
    Variable → Prop
  | never (h : ∀ n text, ¬ s.AssignsAt ops n id k text) : LastAssigned s ops id k u u
  | last {n : Nat} {text : String} (h : s.AssignsAt ops n id k text)
    (hlast : ∀ m text', n < m → ¬ s.AssignsAt ops m id k text') (hfinal : u.isFinal = false) :
    LastAssigned s ops id k u { u with value := some text }

section

variable {s : Scopes} {op : Operation} {ops : List Operation} {id k : Nat} {text : String}
  {u v : Variable}

theorem not_assigns_of_assignment? (h : op.assignment? = none) : ¬ s.Assigns op id k text := by
  rintro ⟨a, v, t, hop, -⟩
  rw [h] at hop
  cases hop

theorem assignsAt_zero : s.AssignsAt (op :: ops) 0 id k text ↔ s.Assigns op id k text := by
  simp [AssignsAt, after]

theorem assignsAt_succ {n : Nat} :
    s.AssignsAt (op :: ops) (n + 1) id k text ↔ (op.apply s).AssignsAt ops n id k text :=
  Iff.rfl

namespace LastAssigned

theorem nil (s : Scopes) (id k : Nat) (u : Variable) : s.LastAssigned [] id k u u := by
  refine .never fun n text => ?_
  rintro ⟨op, hop, -⟩
  simp at hop

/-- The last assignment to the variable comes after the first operation. -/
theorem cons_of_last {n : Nat} (h : (op.apply s).AssignsAt ops n id k text)
    (hlast : ∀ m text', n < m → ¬ (op.apply s).AssignsAt ops m id k text')
    (hfinal : u.isFinal = false) :
    s.LastAssigned (op :: ops) id k u { u with value := some text } := by
  refine .last (n := n + 1) (assignsAt_succ.2 h) (fun m text' hm => ?_) hfinal
  obtain ⟨m, rfl⟩ : ∃ j, m = j + 1 := ⟨m - 1, by omega⟩
  rw [assignsAt_succ]
  exact hlast m text' (by omega)

/-- The first operation does not assign the variable. -/
theorem cons_of_not_assigns (hop : ∀ text, ¬ s.Assigns op id k text)
    (h : (op.apply s).LastAssigned ops id k u v) : s.LastAssigned (op :: ops) id k u v := by
  cases h with
  | never hnever =>
    refine .never fun n text => ?_
    cases n with
    | zero =>
      rw [assignsAt_zero]
      exact hop text
    | succ n =>
      rw [assignsAt_succ]
      exact hnever n text
  | last hn hlast hfinal => exact cons_of_last hn hlast hfinal

/-- The first operation assigns the variable, and later ones may do so again. -/
theorem cons_of_assigns (hop : s.Assigns op id k text) (hfinal : u.isFinal = false)
    (h : (op.apply s).LastAssigned ops id k { u with value := some text } v) :
    s.LastAssigned (op :: ops) id k u v := by
  cases h with
  | never hnever =>
    refine .last (n := 0) (assignsAt_zero.2 hop) (fun m text' hm => ?_) hfinal
    obtain ⟨m, rfl⟩ : ∃ j, m = j + 1 := ⟨m - 1, by omega⟩
    rw [assignsAt_succ]
    exact hnever m text'
  | last hn hlast _ => exact cons_of_last hn hlast hfinal

end LastAssigned

end

/-! ## Statements -/

/-- What a statement does to the scopes: it adds variables to the current one,
    or it is an assignment that is carried out. -/
inductive StatementStep (s : Scopes) (op : Operation) : Scopes → Prop
  | adds (hop : ∀ id k text, ¬ s.Assigns op id k text) (vars : List Variable) :
    StatementStep s op (s.pushAll vars)
  | assigns {a : Assignment} {v : Variable} {text : String} {t : Scopes}
    (hop : op.assignment? = some a) (hok : LineCheck.assign a s = .ok () t)
    (hfinal : v.isFinal = false)
    (htext : s.valueFor v.ty a.value = .ok text) (hsets : s.Sets a.name text v t) :
    StatementStep s op t

theorem statementStep_apply (s : Scopes) {op : Operation} (hop : op.IsStatement) :
    s.StatementStep op (op.apply s) := by
  cases ha : op.assignment? with
  | none =>
    obtain ⟨vars, hvars⟩ := Operation.exists_apply_eq_pushAll hop ha s
    rw [hvars]
    exact .adds (fun id k text => not_assigns_of_assignment? ha) vars
  | some a =>
    rw [Operation.apply_of_assignment? ha]
    cases hassign : LineCheck.assign a s with
    | ok u t =>
      obtain ⟨v, text, hfinal, htext, hsets⟩ :=
        assign_eq_ok_iff.1 (Resolving.update_eq_ok_iff.1 hassign)
      exact .assigns ha hassign hfinal htext hsets
    | error fault t =>
      -- an assignment that fails is as good as none
      obtain ⟨-, hsame⟩ := Resolving.update_eq_error_iff.1 hassign
      have hnot : ∀ id k text, ¬ s.Assigns op id k text := by
        rintro id k text ⟨a', v, t, ha', hok, -⟩
        obtain rfl : a = a' := Option.some.inj (ha.symm.trans ha')
        rw [hassign] at hok
        cases hok
      have hnone : s.StatementStep op s := by
        simpa only [pushAll_nil] using StatementStep.adds hnot []
      rwa [scopesAfter, hsame]

theorem varAt?_pushAll {s : Scopes} {id k : Nat} {u : Variable} (h : s.varAt? id k = some u)
    (vars : List Variable) : (s.pushAll vars).varAt? id k = some u := by
  have hs : s.toList = [] ++ s.current :: s.outer := rfl
  have ht : (s.pushAll vars).toList =
      [] ++ ⟨s.current.kind, s.current.vars ++ vars⟩ :: s.outer := rfl
  rw [varAt?, scope?_of_replace hs ht]
  by_cases hid : id = s.outer.length
  · subst hid
    rw [varAt?, scope?_of_append_cons hs] at h
    obtain ⟨hk, -⟩ := List.getElem?_eq_some_iff.1 h
    rw [if_pos rfl, Option.bind_some, List.getElem?_append_left hk]
    exact h
  · rw [if_neg hid]
    exact h

namespace StatementStep

variable {s t : Scopes} {op : Operation}

/-- A statement assigns the variable at a place, or leaves it as it is. -/
theorem varAt? (h : s.StatementStep op t) {id k : Nat} {u : Variable}
    (hu : s.varAt? id k = some u) :
    ((∀ text, ¬ s.Assigns op id k text) ∧ t.varAt? id k = some u) ∨
      ∃ text, s.Assigns op id k text ∧ u.isFinal = false ∧
        t.varAt? id k = some { u with value := some text } := by
  cases h with
  | adds hop vars => exact .inl ⟨hop id k, varAt?_pushAll hu vars⟩
  | @assigns a v text t hop hok hfinal htext hsets =>
    obtain ⟨id', k', hplace, hvar⟩ := hsets.varAt?
    rw [hvar]
    by_cases heq : id = id' ∧ k = k'
    · obtain ⟨rfl, rfl⟩ := heq
      obtain rfl : v = u := Option.some.inj (hplace.var.symm.trans hu)
      exact .inr ⟨text, ⟨a, v, t, hop, hok, hplace, htext⟩, hfinal, if_pos ⟨rfl, rfl⟩⟩
    · refine .inl ⟨?_, by rw [if_neg heq, hu]⟩
      rintro text' ⟨a', v', t', hop', -, hplace', -⟩
      obtain rfl : a = a' := Option.some.inj (hop.symm.trans hop')
      obtain ⟨rfl, rfl, -⟩ := hplace'.unique hplace
      exact heq ⟨rfl, rfl⟩

theorem map_shape_outer (h : s.StatementStep op t) :
    t.outer.map Scope.shape = s.outer.map Scope.shape := by
  cases h with
  | adds hop vars => rfl
  | assigns hop hok hfinal htext hsets => exact (List.cons_eq_cons.1 hsets.map_shape).2

theorem currentId_eq (h : s.StatementStep op t) : t.currentId = s.currentId := by
  have hlength := congrArg List.length h.map_shape_outer
  rwa [List.length_map, List.length_map] at hlength

end StatementStep

end Scopes

/-! ## Balanced operations -/

namespace Balanced

open Scopes

variable {n : Nat} {ops : List Operation} {s : Scopes}

/-- **Balanced operations change only values outside the current scope.** They
    close `n` scopes, and the scopes around the one that is then the current one
    were there before. -/
theorem map_shape_outer (h : Balanced n ops) :
    (s.after ops).outer.map Scope.shape = (s.outer.drop n).map Scope.shape := by
  induction h generalizing s with
  | nil => rfl
  | statement hop _ ih =>
    rw [after_cons, ih, List.map_drop, List.map_drop, (s.statementStep_apply hop).map_shape_outer]
  | enter kind _ ih =>
    rw [after_cons, ih]
    rfl
  | @leave n ops _ ih =>
    rw [after_cons, ih]
    obtain ⟨current, outer⟩ := s
    cases outer with
    | nil => simp [Operation.apply, Scopes.leave]
    | cons scope outer => rfl

/-- **A variable is followed at its place** through balanced operations that do
    not close its scope. -/
theorem exists_lastAssigned (h : Balanced n ops) {id k : Nat} {u : Variable}
    (hu : s.varAt? id k = some u) (hid : id + n ≤ s.currentId) :
    ∃ v, (s.after ops).varAt? id k = some v ∧ s.LastAssigned ops id k u v := by
  -- while `n` scopes are still to be closed, the scope of the variable is not
  -- among them
  induction h generalizing s u with
  | nil => exact ⟨u, hu, .nil s id k u⟩
  | @statement n op ops hop _ ih =>
    have hstep := s.statementStep_apply hop
    have hid' : id + n ≤ (op.apply s).currentId := by rwa [hstep.currentId_eq]
    rcases hstep.varAt? hu with ⟨hnot, hu'⟩ | ⟨text, hassigns, hfinal, hu'⟩
    · obtain ⟨v, hv, hlast⟩ := ih hu' hid'
      exact ⟨v, hv, hlast.cons_of_not_assigns hnot⟩
    · obtain ⟨v, hv, hlast⟩ := ih hu' hid'
      exact ⟨v, hv, hlast.cons_of_assigns hassigns hfinal⟩
  | @enter n ops kind _ ih =>
    have hlt : id < s.toList.length := by
      rw [length_toList]
      omega
    have hu' : (s.enter kind).varAt? id k = some u := by rwa [Scopes.varAt?, scope?_enter hlt]
    obtain ⟨v, hv, hlast⟩ := ih hu' (by rw [currentId_enter]; omega)
    exact ⟨v, hv, hlast.cons_of_not_assigns fun text => not_assigns_of_assignment? rfl⟩
  | @leave n ops _ ih =>
    have hlt : id < s.leave.toList.length := by
      rw [length_toList, currentId_leave]
      omega
    have hu' : s.leave.varAt? id k = some u := by rwa [Scopes.varAt?, scope?_leave hlt]
    obtain ⟨v, hv, hlast⟩ := ih hu' (by rw [currentId_leave]; omega)
    exact ⟨v, hv, hlast.cons_of_not_assigns fun text => not_assigns_of_assignment? rfl⟩

end Balanced

/-- **A scope that is opened and closed leaves the others as they were, but for
    values.** Let a scope be opened and closed again, with statements in
    between, which succeed or fail, and with other scopes opened and closed in
    pairs. Then the same scopes are open as before, with the same variables in
    the same order, of the same names and types, final or not. A variable has
    the value that it had, if no assignment was carried out while it was what
    the name in the assignment meant. Otherwise it is not final and has the
    value of the last such assignment. -/
theorem block_keeps_outer_scopes (s : Scopes) (kind : ScopeKind) {inside : List Operation}
    (h : Balanced 0 inside) :
    (s.after (.enter kind :: inside ++ [.leave])).toList.map Scope.shape =
      s.toList.map Scope.shape ∧
    ∀ id k u, s.varAt? id k = some u →
      ∃ v, (s.after (.enter kind :: inside ++ [.leave])).varAt? id k = some v ∧
        s.LastAssigned (.enter kind :: inside ++ [.leave]) id k u v := by
  constructor
  · have hinside : ((s.enter kind).after inside).outer.map Scope.shape = s.toList.map Scope.shape :=
      h.map_shape_outer
    have hid : 0 < ((s.enter kind).after inside).currentId := by
      have hlength := congrArg List.length hinside
      rw [List.length_map, List.length_map, Scopes.length_toList] at hlength
      rw [Scopes.currentId, hlength]
      exact Nat.succ_pos _
    rw [List.cons_append, Scopes.after_cons, Scopes.after_concat, Operation.apply, Operation.apply,
      Scopes.toList_leave hid]
    exact hinside
  · intro id k u hu
    have hblock : Balanced 0 (.enter kind :: inside ++ [.leave]) :=
      .enter kind (h.append (.leave .nil))
    have hid : id < s.toList.length := by
      obtain ⟨scope, hscope, -⟩ := Option.bind_eq_some_iff.1 hu
      exact Scopes.lt_length_of_scope?_eq_some hscope
    rw [Scopes.length_toList] at hid
    exact hblock.exists_lastAssigned hu (by omega)

/-- In the method, a declaration that fails leaves a variable that hides the
    global `x`, so that the first assignment is to this one. Two assignments to
    `y` are carried out, and the one to the final `z` is not. -/
theorem block_of_hidden_global :
    ∃ s inside, s = session [.define ⟨"x", .int, some "1", false⟩,
        .define ⟨"y", .double, none, false⟩, .define ⟨"z", .char, some "'a'", true⟩] ∧
      inside = [.declare ⟨false, .int, [⟨"x", none⟩, ⟨"x", none⟩]⟩,
        .assign ⟨"x", .literal (.int "2")⟩, .enter .block, .assign ⟨"y", .var "x"⟩, .leave,
        .resolve .empty (.assignment ⟨"y", .literal (.double "2.5")⟩),
        .assign ⟨"z", .literal (.char "'b'")⟩] ∧
      Balanced 0 inside ∧
      s.LastAssigned (.enter .method :: inside ++ [.leave]) 0 0 ⟨"x", .int, some "1", false⟩
        ⟨"x", .int, some "1", false⟩ ∧
      s.LastAssigned (.enter .method :: inside ++ [.leave]) 0 1 ⟨"y", .double, none, false⟩
        ⟨"y", .double, some "2.5", false⟩ ∧
      s.LastAssigned (.enter .method :: inside ++ [.leave]) 0 2 ⟨"z", .char, some "'a'", true⟩
        ⟨"z", .char, some "'a'", true⟩ := by
  refine ⟨_, _, rfl, rfl, ?_⟩
  have hinside : Balanced 0 [.declare ⟨false, .int, [⟨"x", none⟩, ⟨"x", none⟩]⟩,
      .assign ⟨"x", .literal (.int "2")⟩, .enter .block, .assign ⟨"y", .var "x"⟩, .leave,
      .resolve .empty (.assignment ⟨"y", .literal (.double "2.5")⟩),
      .assign ⟨"z", .literal (.char "'b'")⟩] :=
    .statement trivial (.statement trivial (.enter .block (.statement trivial (.leave
      (.statement trivial (.statement trivial .nil))))))
  have hvars := (block_keeps_outer_scopes (session [.define ⟨"x", .int, some "1", false⟩,
    .define ⟨"y", .double, none, false⟩, .define ⟨"z", .char, some "'a'", true⟩]) .method hinside).2
  refine ⟨hinside, ?_, ?_, ?_⟩
  · obtain ⟨v, hv, hlast⟩ := hvars 0 0 ⟨"x", .int, some "1", false⟩ (by decide +kernel)
    obtain rfl : v = ⟨"x", .int, some "1", false⟩ :=
      Option.some.inj (hv.symm.trans (by decide +kernel))
    exact hlast
  · obtain ⟨v, hv, hlast⟩ := hvars 0 1 ⟨"y", .double, none, false⟩ (by decide +kernel)
    obtain rfl : v = ⟨"y", .double, some "2.5", false⟩ :=
      Option.some.inj (hv.symm.trans (by decide +kernel))
    exact hlast
  · obtain ⟨v, hv, hlast⟩ := hvars 0 2 ⟨"z", .char, some "'a'", true⟩ (by decide +kernel)
    obtain rfl : v = ⟨"z", .char, some "'a'", true⟩ :=
      Option.some.inj (hv.symm.trans (by decide +kernel))
    exact hlast

end LineCheck
