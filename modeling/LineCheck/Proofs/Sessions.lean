import Mathlib.Data.List.Induction
import Mathlib.Data.List.Nodup
import LineCheck.Proofs.Finality
import LineCheck.Proofs.Pointwise

/-!
Sessions: any sequence of operations on the open scopes.

A check opens and closes scopes in pairs and assigns only what may be assigned.
The scopes can do more: in a session any operation follows any other, also one
that failed, scopes are closed where only the global one is open, and variables
are set by the number of their scope. Still an operation that closes no scope
only lets the scopes grow (`grows_apply`): new variables have new names and
stand after the others, and the others stay in their places. So a scope persists
until it is closed (`exists_scope?_session`), the names in it are distinct
(`distinct_session`), and the variables found under a name are those that the
scopes hold (`session_keeps_scopes`).
-/

namespace LineCheck

/-! ## What stays of variables and scopes -/

/-- The same variable later: it may have another value, but not lose its value. -/
structure Variable.Persists (u v : Variable) : Prop where
  name : v.name = u.name
  ty : v.ty = u.ty
  isFinal : v.isFinal = u.isFinal
  isAssigned : u.isAssigned = true → v.isAssigned = true

namespace Variable.Persists

theorem refl (u : Variable) : u.Persists u :=
  ⟨rfl, rfl, rfl, id⟩

theorem trans {u v w : Variable} (h : u.Persists v) (h' : v.Persists w) : u.Persists w :=
  ⟨h'.name.trans h.name, h'.ty.trans h.ty, h'.isFinal.trans h.isFinal,
    fun hu => h'.isAssigned (h.isAssigned hu)⟩

theorem assigned (u : Variable) (value : String) : u.Persists { u with value := some value } :=
  ⟨rfl, rfl, rfl, fun _ => rfl⟩

end Variable.Persists

theorem Variable.Becomes.persists {u v : Variable} (h : u.Becomes v) : u.Persists v := by
  cases h with
  | same => exact .refl u
  | assigned _ value => exact .assigned u value

/-- The same scope later: its variables are still in their places. -/
structure Scope.Persists (a b : Scope) : Prop where
  kind : b.kind = a.kind
  vars : ∀ (k : Nat) (u : Variable), a.vars[k]? = some u → ∃ v, b.vars[k]? = some v ∧ u.Persists v

/-- What a scope can become in a check is more than to persist. -/
theorem Scope.Becomes.persists {a b : Scope} (h : a.Becomes b) : a.Persists b := by
  refine ⟨h.kind, ?_⟩
  intro k u hu
  obtain ⟨v, hv, huv⟩ := h.vars k u hu
  exact ⟨v, hv, huv.persists⟩

namespace Scope.Persists

variable {a b c : Scope}

theorem refl (a : Scope) : a.Persists a :=
  (Becomes.refl a).persists

theorem trans (h : a.Persists b) (h' : b.Persists c) : a.Persists c := by
  refine ⟨h'.kind.trans h.kind, ?_⟩
  intro k u hu
  obtain ⟨v, hv, huv⟩ := h.vars k u hu
  obtain ⟨w, hw, hvw⟩ := h'.vars k v hv
  exact ⟨w, hw, huv.trans hvw⟩

theorem push (a : Scope) (v : Variable) : a.Persists (a.push v) :=
  (Becomes.push a v).persists

/-- Any variable may get a new value, a final one too. -/
theorem set (kind : ScopeKind) (before : List Variable) (v : Variable) (after : List Variable)
    (value : String) :
    Persists ⟨kind, before ++ v :: after⟩
      ⟨kind, before ++ { v with value := some value } :: after⟩ := by
  refine ⟨rfl, fun k u hu => exists_getElem?_of_forall₂ ?_ hu⟩
  exact forall₂_append_cons .refl (.assigned v value) before after

end Scope.Persists

namespace Scopes

/-- In each open scope, the names of the variables are distinct. -/
def Distinct (s : Scopes) : Prop :=
  ∀ scope ∈ s.toList, (scope.vars.map Variable.name).Nodup

/-- The scopes are still open, under their numbers, and no two variables of one
    scope get the same name. -/
structure Grows (s t : Scopes) : Prop where
  scope : ∀ id a, s.scope? id = some a → ∃ b, t.scope? id = some b ∧ a.Persists b
  distinct : s.Distinct → t.Distinct

namespace Grows

variable {s t u : Scopes}

theorem refl (s : Scopes) : s.Grows s :=
  ⟨fun _ a ha => ⟨a, ha, .refl a⟩, id⟩

theorem trans (h : s.Grows t) (h' : t.Grows u) : s.Grows u := by
  refine ⟨?_, fun hs => h'.distinct (h.distinct hs)⟩
  intro id a ha
  obtain ⟨b, hb, hab⟩ := h.scope id a ha
  obtain ⟨c, hc, hbc⟩ := h'.scope id b hb
  exact ⟨c, hc, hab.trans hbc⟩

theorem enter (s : Scopes) (kind : ScopeKind) : s.Grows (s.enter kind) := by
  constructor
  · intro id a ha
    exact ⟨a, by rw [scope?_enter (lt_length_of_scope?_eq_some ha), ha], .refl a⟩
  · intro hs scope hscope
    rcases List.mem_cons.1 hscope with rfl | hscope
    · exact List.nodup_nil
    · exact hs scope hscope

/-- One scope becomes another one that it persists in, and the others stay as
    they are. -/
theorem of_persists {inner outer : List Scope} {a b : Scope} (hs : s.toList = inner ++ a :: outer)
    (ht : t.toList = inner ++ b :: outer) (hab : a.Persists b)
    (hnames : (a.vars.map Variable.name).Nodup → (b.vars.map Variable.name).Nodup) : s.Grows t := by
  constructor
  · have hscopes : List.Forall₂ Scope.Persists s.toList t.toList := by
      rw [hs, ht]
      exact forall₂_append_cons .refl hab inner outer
    intro id scope hscope
    exact exists_getElem?_of_forall₂ (List.forall₂_reverse_iff.2 hscopes) hscope
  · intro hdistinct scope hscope
    rw [Distinct, hs] at hdistinct
    rw [ht] at hscope
    rcases List.mem_append.1 hscope with hinner | hscope
    · exact hdistinct scope (List.mem_append_left _ hinner)
    · rcases List.mem_cons.1 hscope with rfl | houter
      · exact hnames (hdistinct a (by simp))
      · exact hdistinct scope (by simp [houter])

theorem push {v : Variable} (h : s.current.get? v.name = none) : s.Grows (s.push v) := by
  have hs : s.toList = [] ++ s.current :: s.outer := rfl
  have ht : (s.push v).toList = [] ++ s.current.push v :: s.outer := rfl
  have hnew : ∀ u ∈ s.current.vars, u.name ≠ v.name := Scope.get?_eq_none_iff.1 h
  have hpush : (s.current.push v).vars.map Variable.name =
      (s.current.vars.map Variable.name).concat v.name := by simp [Scope.push]
  refine of_persists hs ht (.push s.current v) fun hnames => ?_
  rw [hpush]
  refine hnames.concat fun hmem => ?_
  obtain ⟨u, hu, hname⟩ := List.mem_map.1 hmem
  exact hnew u hu hname

theorem place {inner outer : List Scope} {kind : ScopeKind} {before after : List Variable}
    {v : Variable} {value : String} (hs : s.toList = inner ++ ⟨kind, before ++ v :: after⟩ :: outer)
    (ht : t.toList = inner ++ ⟨kind, before ++ { v with value := some value } :: after⟩ :: outer) :
    s.Grows t :=
  of_persists hs ht (.set kind before v after value) (by simp)

/-- Where a step fails, nothing changes. -/
theorem update {f : Scopes → Except Fault Scopes} (h : ∀ t, f s = .ok t → s.Grows t) :
    s.Grows (scopesAfter (Resolving.update f s)) := by
  unfold Resolving.update
  cases hf : f s with
  | ok t => exact h t hf
  | error fault => exact .refl s

end Grows

end Scopes

/-! ## Setting by number -/

theorem Scope.exists_of_setValue? {name value : String} {vars vars' : List Variable}
    (h : setValue? name value vars = some vars') :
    ∃ before v after, vars = before ++ v :: after ∧
      vars' = before ++ { v with value := some value } :: after := by
  fun_induction setValue? name value vars generalizing vars' with
  | case1 => cases h
  | case2 v vars hv =>
    cases h
    exact ⟨[], v, vars, rfl, rfl⟩
  | case3 u vars hu ih =>
    obtain ⟨rest, hrest, rfl⟩ := Option.map_eq_some_iff.1 h
    obtain ⟨before, v, after, rfl, rfl⟩ := ih hrest
    exact ⟨u :: before, v, after, rfl, rfl⟩

theorem Scopes.exists_of_setIn? {id : Nat} {name value : String} {scopes scopes' : List Scope}
    (h : setIn? id name value scopes = some scopes') :
    ∃ inner kind before v after outer, scopes = inner ++ ⟨kind, before ++ v :: after⟩ :: outer ∧
      scopes' = inner ++ ⟨kind, before ++ { v with value := some value } :: after⟩ :: outer := by
  fun_induction setIn? id name value scopes generalizing scopes' with
  | case1 => cases h
  | case2 scope outer hid =>
    obtain ⟨scope', hscope, rfl⟩ := Option.map_eq_some_iff.1 h
    obtain ⟨vars, hvars, rfl⟩ := Option.map_eq_some_iff.1 hscope
    obtain ⟨before, v, after, hbefore, rfl⟩ := Scope.exists_of_setValue? hvars
    refine ⟨[], scope.kind, before, v, after, outer, ?_, rfl⟩
    rw [← hbefore]
    rfl
  | case3 scope outer hid ih =>
    obtain ⟨rest, hrest, rfl⟩ := Option.map_eq_some_iff.1 h
    obtain ⟨inner, kind, before, v, after, outer', rfl, rfl⟩ := ih hrest
    exact ⟨scope :: inner, kind, before, v, after, outer', rfl, rfl⟩

theorem Scopes.Grows.set? {s t : Scopes} {id : Nat} {name value : String}
    (h : s.set? id name value = some t) : s.Grows t := by
  have hset : setIn? id name value s.toList = some t.toList := by
    rw [← map_toList_set?, h, Option.map_some]
  obtain ⟨inner, kind, before, v, after, outer, hs, ht⟩ := exists_of_setIn? hset
  exact place hs ht

/-! ## Statements -/

theorem scopesAfter_discard {α : Type} (work : Resolving α) (s : Scopes) :
    scopesAfter ((discard work : Resolving Unit) s) = scopesAfter (work s) := by
  cases h : work s with
  | ok a t =>
    have hdiscard : discard work s = .ok () t := discard_eq_ok_iff.2 ⟨a, h⟩
    rw [hdiscard]
    rfl
  | error fault t =>
    have hdiscard : discard work s = .error fault t := discard_eq_error_iff.2 h
    rw [hdiscard]
    rfl

theorem scopesAfter_declare (d : Declaration) (s : Scopes) :
    scopesAfter (declare d s) = scopesAfter (declareItems d.isFinal d.ty d.items s) := by
  unfold declare
  cases h : declareItems d.isFinal d.ty d.items s with
  | ok u t =>
    rw [bind_of_ok h]
    rfl
  | error fault t =>
    rw [bind_of_error h]
    rfl

namespace Scopes.Grows

theorem declareItems (isFinal : Bool) (ty : Ty) (items : List Declarator) (s : Scopes) :
    s.Grows (scopesAfter (LineCheck.declareItems isFinal ty items s)) := by
  induction items generalizing s with
  | nil => exact .refl s
  | cons d ds ih =>
    have hitem : s.Grows (scopesAfter (Resolving.update (declareItem isFinal ty d) s)) := by
      refine update fun t ht => ?_
      obtain ⟨hnew, value, -, rfl⟩ := declareItem_eq_ok_iff.1 ht
      exact push hnew
    -- what was declared before the first fault stays declared
    rw [LineCheck.declareItems]
    cases hd : Resolving.update (declareItem isFinal ty d) s with
    | ok u t =>
      rw [hd] at hitem
      rw [bind_of_ok hd]
      exact hitem.trans (ih t)
    | error fault t =>
      rw [hd] at hitem
      rw [bind_of_error hd]
      exact hitem

theorem assign (a : Assignment) (s : Scopes) : s.Grows (scopesAfter (LineCheck.assign a s)) := by
  refine update fun t ht => ?_
  obtain ⟨v, value, -, -, inner, kind, before, after, outer, -, -, -, hs, ht'⟩ :=
    assign_eq_ok_iff.1 ht
  exact place hs ht'

theorem resolve (methods : MethodTable) (st : Statement) (s : Scopes) :
    s.Grows (scopesAfter (LineCheck.resolve methods st s)) := by
  cases st with
  | declaration d =>
    rw [LineCheck.resolve, scopesAfter_discard, scopesAfter_declare]
    exact declareItems d.isFinal d.ty d.items s
  | assignment a => exact assign a s
  | call c =>
    rw [LineCheck.resolve, Resolving.require]
    cases methods.checkCall c s <;> exact .refl s

end Scopes.Grows

/-! ## Sessions -/

/-- What can be done with the open scopes. -/
inductive Operation where
  | enter (kind : ScopeKind)
  | leave
  | define (v : Variable)
  | set (id : Nat) (name value : String)
  | declare (d : Declaration)
  | assign (a : Assignment)
  | resolve (methods : MethodTable) (st : Statement)

/-- The scopes that an operation leaves, whether it succeeds or fails. -/
def Operation.apply (s : Scopes) : Operation → Scopes
  | enter kind => s.enter kind
  | leave => s.leave
  | define v => scopesAfter (Resolving.update (·.define v) s)
  | set id name value => (s.set? id name value).getD s
  | declare d => scopesAfter (LineCheck.declare d s)
  | assign a => scopesAfter (LineCheck.assign a s)
  | resolve methods st => scopesAfter (LineCheck.resolve methods st s)

/-- The open scopes after some operations, one after the other. -/
def session (ops : List Operation) : Scopes :=
  ops.foldl Operation.apply .initial

theorem session_concat (ops : List Operation) (op : Operation) :
    session (ops ++ [op]) = op.apply (session ops) := by
  rw [session, List.foldl_append, List.foldl_cons, List.foldl_nil, ← session]

/-- **An operation that closes no scope lets the scopes grow.** -/
theorem grows_apply (s : Scopes) {op : Operation} (h : op ≠ .leave) : s.Grows (op.apply s) := by
  cases op with
  | enter kind => exact .enter s kind
  | leave => exact absurd rfl h
  | define v =>
    refine .update fun t ht => ?_
    obtain ⟨hnew, rfl⟩ := Scopes.define_eq_ok_iff.1 ht
    exact .push hnew
  | set id name value =>
    rw [Operation.apply]
    cases hset : s.set? id name value with
    | none => exact .refl s
    | some t => exact .set? hset
  | declare d =>
    rw [Operation.apply, scopesAfter_declare]
    exact .declareItems d.isFinal d.ty d.items s
  | assign a => exact .assign a s
  | resolve methods st => exact .resolve methods st s

/-- An operation closes at most one scope, and the others persist. -/
theorem exists_scope?_apply {s : Scopes} (op : Operation) {id : Nat} {a : Scope}
    (ha : s.scope? id = some a) (hopen : id < (op.apply s).toList.length) :
    ∃ b, (op.apply s).scope? id = some b ∧ a.Persists b := by
  by_cases hop : op = .leave
  · subst hop
    exact ⟨a, by rw [Operation.apply, Scopes.scope?_leave hopen, ha], .refl a⟩
  · exact (grows_apply s hop).scope id a ha

theorem distinct_apply {s : Scopes} (op : Operation) (h : s.Distinct) : (op.apply s).Distinct := by
  by_cases hop : op = .leave
  · subst hop
    intro scope hscope
    refine h scope ?_
    obtain ⟨current, outer⟩ := s
    cases outer with
    | nil => exact hscope
    | cons next outer => exact List.mem_cons_of_mem _ hscope
  · exact (grows_apply s hop).distinct h

/-- **In every session, the names in a scope are distinct.** -/
theorem distinct_session (ops : List Operation) : (session ops).Distinct := by
  induction ops using List.reverseRecOn with
  | nil =>
    intro scope hscope
    obtain rfl : scope = .empty .global := by
      simpa [session, Scopes.initial, Scopes.toList] using hscope
    exact List.nodup_nil
  | append_singleton ops op ih =>
    rw [session_concat]
    exact distinct_apply op ih

/-- **A scope persists as long as it is open.** -/
theorem exists_scope?_session (ops more : List Operation) {id : Nat} {a : Scope}
    (ha : (session ops).scope? id = some a)
    (hopen : ∀ part, part <+: more → id < (session (ops ++ part)).toList.length) :
    ∃ b, (session (ops ++ more)).scope? id = some b ∧ a.Persists b := by
  induction more using List.reverseRecOn with
  | nil => exact ⟨a, by rw [List.append_nil, ha], .refl a⟩
  | append_singleton more op ih =>
    obtain ⟨b, hb, hab⟩ := ih fun part hpart => hopen part (hpart.trans (List.prefix_append _ _))
    have hlast := hopen (more ++ [op]) (List.prefix_refl _)
    rw [← List.append_assoc, session_concat] at hlast ⊢
    obtain ⟨c, hc, hbc⟩ := exists_scope?_apply op hb hlast
    exact ⟨c, hc, hab.trans hbc⟩

/-! ## The global scope -/

theorem Scopes.scope?_zero (s : Scopes) : s.scope? 0 = some s.global := by
  rw [scope?, ← List.head?_eq_getElem?, List.head?_reverse]
  exact List.getLast?_eq_some_getLast _

theorem global_persists (ops more : List Operation) :
    (session ops).global.Persists (session (ops ++ more)).global := by
  obtain ⟨b, hb, hab⟩ := exists_scope?_session ops more (session ops).scope?_zero
    fun part _ => Nat.succ_pos _
  rw [Scopes.scope?_zero] at hb
  exact Option.some.inj hb ▸ hab

/-! ## Names -/

/-- With distinct names, a name is that of at most one variable. -/
theorem Scope.filter_name_eq {scope : Scope} (h : (scope.vars.map Variable.name).Nodup)
    (name : String) : scope.vars.filter (·.name == name) = (scope.get? name).toList := by
  have hcount : (scope.vars.filter (·.name == name)).length ≤ 1 := by
    rw [← List.countP_eq_length_filter]
    simpa [List.count, List.countP_map, Function.comp_def] using
      List.nodup_iff_count_le_one.1 h name
  rw [get?, ← List.head?_filter]
  generalize scope.vars.filter (·.name == name) = found at hcount ⊢
  cases found with
  | nil => rfl
  | cons v others =>
    obtain rfl : others = [] := List.eq_nil_of_length_eq_zero (by simpa using hcount)
    rfl

namespace Scopes

variable {s : Scopes}

theorem Distinct.findAll_eq (h : s.Distinct) (name : String) :
    s.findAll name = s.toList.flatMap fun scope => scope.vars.filter (·.name == name) := by
  unfold findAll
  rw [List.filterMap_eq_flatMap_toList]
  exact List.flatMap_congr fun scope hscope => (Scope.filter_name_eq (h scope hscope) name).symm

/-- A variable is located in the innermost scope that has its name. -/
theorem exists_scope?_of_locate? {name : String} {id : Nat} {v : Variable}
    (h : s.locate? name = some (id, v)) :
    ∃ scope, s.scope? id = some scope ∧ v ∈ scope.vars ∧ v.name = name ∧
      ∀ id' inner, id < id' → s.scope? id' = some inner → ∀ u ∈ inner.vars, u.name ≠ name := by
  obtain ⟨inner, scope, outer, hs, hinner, hv, rfl⟩ := locateIn?_eq_some_iff.1 h
  obtain ⟨hname, before, after, hvars, -⟩ := Scope.get?_eq_some_iff.1 hv
  refine ⟨scope, scope?_of_append_cons hs, by simp [hvars], hname, ?_⟩
  intro id' scope' hid hscope'
  exact Scope.get?_eq_none_iff.1 (hinner scope' (mem_inner_of_scope? hs hid hscope'))

end Scopes

/-- **The scopes of a session.** There is always a scope; the first one is the
    global scope, and always the same. The names in a scope are distinct. A
    scope that is not closed keeps its variables in their places, with their
    names and types, final or not, and a variable that has a value never loses
    it. So a search for all variables of a name gives one for each scope that
    has the name, from the inside to the outside, and a search for one gives the
    first of them, with the number of its scope. -/
theorem session_keeps_scopes (ops more : List Operation) :
    0 < (session ops).toList.length ∧
    (session ops).scope? 0 = some (session ops).global ∧ (session ops).global.kind = .global ∧
    (session ops).global.Persists (session (ops ++ more)).global ∧
    (∀ scope ∈ (session ops).toList, (scope.vars.map Variable.name).Nodup) ∧
    (∀ id a, (session ops).scope? id = some a →
      (∀ part, part <+: more → id < (session (ops ++ part)).toList.length) →
        ∃ b, (session (ops ++ more)).scope? id = some b ∧ a.Persists b) ∧
    ∀ name,
      (session ops).findAll name =
        (session ops).toList.flatMap (fun scope => scope.vars.filter (·.name == name)) ∧
      (∀ scope ∈ (session ops).toList, (scope.vars.filter (·.name == name)).length ≤ 1) ∧
      (session ops).find? name = ((session ops).findAll name).head? ∧
      ((session ops).locate? name).map Prod.snd = ((session ops).findAll name).head? ∧
      ∀ id v, (session ops).locate? name = some (id, v) →
        ∃ scope, (session ops).scope? id = some scope ∧ v ∈ scope.vars ∧ v.name = name ∧
          ∀ id' inner, id < id' → (session ops).scope? id' = some inner →
            ∀ u ∈ inner.vars, u.name ≠ name := by
  have hdistinct := distinct_session ops
  have hkind : (session ops).global.kind = .global := (global_persists [] ops).kind
  refine ⟨Nat.succ_pos _, (session ops).scope?_zero, hkind, global_persists ops more, hdistinct,
    fun id a => exists_scope?_session ops more, ?_⟩
  intro name
  have hfirst := Scopes.find?_eq_head?_findAll (session ops) name
  refine ⟨hdistinct.findAll_eq name, ?_, hfirst, ?_, fun id v => Scopes.exists_scope?_of_locate?⟩
  · intro scope hscope
    rw [Scope.filter_name_eq (hdistinct scope hscope)]
    cases scope.get? name <;> simp
  · rw [Scopes.map_snd_locate?, hfirst]

/-- A declaration that fails at its third variable leaves two, one of which
    hides a global variable. The final global variable is then set by its
    number, and the method is left more often than entered. -/
theorem session_of_failed_declaration :
    (session [.define ⟨"a", .int, some "1", true⟩, .enter .method,
        .declare ⟨false, .double, [⟨"a", some (.var "a")⟩, ⟨"b", none⟩,
          ⟨"a", none⟩]⟩]).findAll "a" =
      [⟨"a", .double, some "1", false⟩, ⟨"a", .int, some "1", true⟩] ∧
    ∃ scope, (session ([.define ⟨"a", .int, some "1", true⟩, .enter .method,
        .declare ⟨false, .double, [⟨"a", some (.var "a")⟩, ⟨"b", none⟩, ⟨"a", none⟩]⟩] ++
          [.set 0 "a" "2", .leave, .leave, .enter .global])).scope? 0 = some scope ∧
      (⟨.global, [⟨"a", .int, some "1", true⟩]⟩ : Scope).Persists scope := by
  have h := session_keeps_scopes [.define ⟨"a", .int, some "1", true⟩, .enter .method,
    .declare ⟨false, .double, [⟨"a", some (.var "a")⟩, ⟨"b", none⟩, ⟨"a", none⟩]⟩]
      [.set 0 "a" "2", .leave, .leave, .enter .global]
  obtain ⟨-, -, -, -, -, hpersists, hnames⟩ := h
  refine ⟨(hnames "a").1.trans (by decide +kernel), ?_⟩
  exact hpersists 0 _ (by decide +kernel) fun part _ => Nat.succ_pos _

end LineCheck
