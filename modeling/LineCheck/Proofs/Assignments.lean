import LineCheck.Proofs.Finality

/-!
Assignments change one place.

The place of a variable is the number of its scope and its index there
(`Scopes.varAt?`). A name means the first variable of its name in the innermost
scope that has one (`Scopes.Innermost`), and this is where the searches for a
name end (`Innermost.locate?`). An assignment puts a value there
(`assign_changes_innermost`): at all other places the variables stay as they
are, so other names mean what they meant, and so do the variables of the same
name further outside.
-/

namespace LineCheck

/-- All of a scope but the values of its variables. -/
def Scope.shape (scope : Scope) : ScopeKind × List (String × Ty × Bool) :=
  (scope.kind, scope.vars.map fun v => (v.name, v.ty, v.isFinal))

/-- A search for a name passes over a variable of another name, whatever its value. -/
theorem Scope.get?_of_name_ne {v : Variable} {name : String} (hv : v.name ≠ name) (text : String)
    (kind : ScopeKind) (before after : List Variable) :
    (⟨kind, before ++ { v with value := some text } :: after⟩ : Scope).get? name =
      (⟨kind, before ++ v :: after⟩ : Scope).get? name := by
  simp [get?, List.find?_append, hv]

namespace Scopes

/-! ## Places -/

/-- The variable `v`, at index `k` of scope `id`, is the one that a name means:
    no scope further inside has the name, and no variable before it in its
    scope. -/
structure Innermost (s : Scopes) (name : String) (id k : Nat) (v : Variable) : Prop where
  var : s.varAt? id k = some v
  named : v.name = name
  first : ∀ j u, j < k → s.varAt? id j = some u → u.name ≠ name
  inside : ∀ id' j u, id < id' → s.varAt? id' j = some u → u.name ≠ name

variable {s t : Scopes} {name : String}

/-- A name means one variable. -/
theorem Innermost.unique {id id' k k' : Nat} {v v' : Variable} (h : s.Innermost name id k v)
    (h' : s.Innermost name id' k' v') : id = id' ∧ k = k' ∧ v = v' := by
  obtain rfl : id = id' := by
    rcases Nat.lt_trichotomy id id' with hid | hid | hid
    · exact absurd h'.named (h.inside _ _ _ hid h'.var)
    · exact hid
    · exact absurd h.named (h'.inside _ _ _ hid h.var)
  obtain rfl : k = k' := by
    rcases Nat.lt_trichotomy k k' with hk | hk | hk
    · exact absurd h.named (h'.first _ _ hk h.var)
    · exact hk
    · exact absurd h'.named (h.first _ _ hk h'.var)
  exact ⟨rfl, rfl, Option.some.inj (h.var.symm.trans h'.var)⟩

section Place

variable {inner outer : List Scope}

theorem scope?_of_replace {a b : Scope} (hs : s.toList = inner ++ a :: outer)
    (ht : t.toList = inner ++ b :: outer) (id : Nat) :
    t.scope? id = if id = outer.length then some b else s.scope? id := by
  have h := getElem?_append_cons outer.reverse inner.reverse a b id
  simpa [scope?, hs, ht] using h

variable {kind : ScopeKind} {before after : List Variable} {v : Variable}

theorem innermost_of_append_cons (hinner : ∀ scope ∈ inner, scope.get? name = none)
    (hbefore : ∀ u ∈ before, u.name ≠ name) (hname : v.name = name)
    (hs : s.toList = inner ++ ⟨kind, before ++ v :: after⟩ :: outer) :
    s.Innermost name outer.length before.length v := by
  have hscope := scope?_of_append_cons hs
  refine ⟨by simp [varAt?, hscope], hname, ?_, ?_⟩
  · intro j u hj hu
    rw [varAt?, hscope, Option.bind_some, List.getElem?_append_left hj] at hu
    exact hbefore u (List.mem_of_getElem? hu)
  · intro id' j u hid hu
    obtain ⟨scope, hscope', hget⟩ := Option.bind_eq_some_iff.1 hu
    have hmem := mem_inner_of_scope? hs hid hscope'
    exact Scope.get?_eq_none_iff.1 (hinner scope hmem) u (List.mem_of_getElem? hget)

theorem varAt?_of_replace {w : Variable}
    (hs : s.toList = inner ++ ⟨kind, before ++ v :: after⟩ :: outer)
    (ht : t.toList = inner ++ ⟨kind, before ++ w :: after⟩ :: outer) (id k : Nat) :
    t.varAt? id k = if id = outer.length ∧ k = before.length then some w else s.varAt? id k := by
  rw [varAt?, varAt?, scope?_of_replace hs ht]
  by_cases hid : id = outer.length
  · subst hid
    rw [if_pos rfl, scope?_of_append_cons hs, Option.bind_some, Option.bind_some,
      getElem?_append_cons before after v w k]
    simp
  · simp [hid]

end Place

/-! ## Searching -/

theorem exists_innermost_of_locate? {id : Nat} {v : Variable} (h : s.locate? name = some (id, v)) :
    ∃ k, s.Innermost name id k v := by
  obtain ⟨inner, ⟨kind, vars⟩, outer, hs, hinner, hv, rfl⟩ := locateIn?_eq_some_iff.1 h
  obtain ⟨hname, before, after, rfl, hbefore⟩ := Scope.get?_eq_some_iff.1 hv
  exact ⟨before.length, innermost_of_append_cons hinner hbefore hname hs⟩

theorem mem_of_varAt? {id k : Nat} {v : Variable} (h : s.varAt? id k = some v) :
    ∃ scope ∈ s.toList, s.scope? id = some scope ∧ v ∈ scope.vars := by
  obtain ⟨scope, hscope, hv⟩ := Option.bind_eq_some_iff.1 h
  exact ⟨scope, List.mem_reverse.1 (List.mem_of_getElem? hscope), hscope, List.mem_of_getElem? hv⟩

/-- A name that some variable has means a variable. -/
theorem exists_innermost_of_varAt? {id k : Nat} {w : Variable} (h : s.varAt? id k = some w)
    (hname : w.name = name) :
    ∃ id' k' v, s.locate? name = some (id', v) ∧ s.Innermost name id' k' v := by
  cases hl : s.locate? name with
  | none =>
    -- then no open scope would have the name
    obtain ⟨scope, hscope, -, hw⟩ := mem_of_varAt? h
    have hnone : s.find? name = none := by rw [← map_snd_locate?, hl, Option.map_none]
    have hget := List.findSome?_eq_none_iff.1 hnone scope hscope
    exact absurd hname (Scope.get?_eq_none_iff.1 hget w hw)
  | some found =>
    obtain ⟨k', hfound⟩ := exists_innermost_of_locate? hl
    exact ⟨found.1, k', found.2, rfl, hfound⟩

/-- A search for a name finds the variable that it means. -/
theorem Innermost.locate? {id k : Nat} {v : Variable} (h : s.Innermost name id k v) :
    s.locate? name = some (id, v) := by
  obtain ⟨id', k', v', hl, hfound⟩ := exists_innermost_of_varAt? h.var h.named
  obtain ⟨rfl, -, rfl⟩ := h.unique hfound
  exact hl

theorem Innermost.find? {id k : Nat} {v : Variable} (h : s.Innermost name id k v) :
    s.find? name = some v := by
  rw [← map_snd_locate?, h.locate?, Option.map_some]

/-! ## The frame of an assignment -/

namespace Sets

variable {text : String} {v : Variable}

/-- A new value for the variable that a name means, and all other variables as
    they are. -/
theorem varAt? (h : s.Sets name text v t) :
    ∃ id k, s.Innermost name id k v ∧ ∀ id' k', t.varAt? id' k' =
      if id' = id ∧ k' = k then some { v with value := some text } else s.varAt? id' k' := by
  obtain ⟨inner, kind, before, after, outer, hinner, hbefore, hname, hs, ht⟩ := h
  exact ⟨outer.length, before.length, innermost_of_append_cons hinner hbefore hname hs,
    varAt?_of_replace hs ht⟩

theorem map_shape (h : s.Sets name text v t) :
    t.toList.map Scope.shape = s.toList.map Scope.shape := by
  obtain ⟨inner, kind, before, after, outer, -, -, -, hs, ht⟩ := h
  simp [hs, ht, Scope.shape]

theorem findAll_of_ne (h : s.Sets name text v t) {other : String} (hne : other ≠ name) :
    t.findAll other = s.findAll other := by
  obtain ⟨inner, kind, before, after, outer, -, -, hname, hs, ht⟩ := h
  have hv : v.name ≠ other := fun heq => hne (heq.symm.trans hname)
  simp only [findAll, hs, ht, List.filterMap_append, List.filterMap_cons,
    Scope.get?_of_name_ne hv text kind before after]

/-- Of the variables of the name, the innermost one has the new value, and those
    outside stay. -/
theorem findAll (h : s.Sets name text v t) :
    ∃ outside, s.findAll name = v :: outside ∧
      t.findAll name = { v with value := some text } :: outside := by
  obtain ⟨inner, kind, before, after, outer, hinner, hbefore, hname, hs, ht⟩ := h
  have hnone : inner.filterMap (·.get? name) = [] := List.filterMap_eq_nil_iff.2 hinner
  have hget : ∀ w : Variable, w.name = name →
      (⟨kind, before ++ w :: after⟩ : Scope).get? name = some w := fun w hw =>
    Scope.get?_eq_some_iff.2 ⟨hw, before, after, rfl, hbefore⟩
  refine ⟨outer.filterMap (·.get? name), ?_, ?_⟩
  · rw [Scopes.findAll, hs, List.filterMap_append, hnone, List.filterMap_cons, hget v hname]
    rfl
  · rw [Scopes.findAll, ht, List.filterMap_append, hnone, List.filterMap_cons,
      hget { v with value := some text } hname]
    rfl

end Sets

end Scopes

/-! ## Assignments -/

/-- When an assignment is carried out, and when not. -/
theorem assign_eq_ok_iff_innermost {a : Assignment} {s : Scopes} :
    (∃ t, s.assign a = .ok t) ↔ ∃ id k v text, s.Innermost a.name id k v ∧ v.isFinal = false ∧
      s.valueFor v.ty a.value = .ok text := by
  constructor
  · rintro ⟨t, ht⟩
    obtain ⟨v, text, hfinal, htext, hsets⟩ := Scopes.assign_eq_ok_iff.1 ht
    obtain ⟨id, k, hplace, -⟩ := hsets.varAt?
    exact ⟨id, k, v, text, hplace, hfinal, htext⟩
  · rintro ⟨id, k, v, text, hplace, hfinal, htext⟩
    obtain ⟨t, -, hsets⟩ := Scopes.exists_sets_of_locate? hplace.locate? text
    exact ⟨t, Scopes.assign_eq_ok_iff.2 ⟨v, text, hfinal, htext, hsets⟩⟩

/-- **An assignment changes the innermost variable of its name, or nothing.** It
    is carried out if its name means a variable that is not final and takes the
    value. Then the variable has the value, and at every other place the same
    variable stands as before: scopes and variables keep their order, names and
    types, other names mean what they meant, and further outside the variables
    of the same name stay. Where an assignment fails, the scopes stay as they
    are. -/
theorem assign_changes_innermost (a : Assignment) (line : Nat) (s : Scopes) :
    ((∃ t, (assign a).atLine line s = .ok () t) ↔
      ∃ id k v text, s.Innermost a.name id k v ∧ v.isFinal = false ∧
        s.valueFor v.ty a.value = .ok text) ∧
    (∀ t, (assign a).atLine line s = .ok () t →
      ∃ id k v text, s.Innermost a.name id k v ∧ v.isFinal = false ∧
        s.valueFor v.ty a.value = .ok text ∧
        (∀ id' k', t.varAt? id' k' =
          if id' = id ∧ k' = k then some { v with value := some text } else s.varAt? id' k') ∧
        t.toList.map Scope.shape = s.toList.map Scope.shape ∧
        (∀ name, name ≠ a.name → t.find? name = s.find? name ∧ t.findAll name = s.findAll name) ∧
        ∃ outside, s.findAll a.name = v :: outside ∧
          t.findAll a.name = { v with value := some text } :: outside) ∧
    ∀ violation t, (assign a).atLine line s = .error violation t → t = s := by
  simp only [assign, atLine_eq_ok_iff, atLine_eq_error_iff, Resolving.update_eq_ok_iff,
    Resolving.update_eq_error_iff]
  refine ⟨assign_eq_ok_iff_innermost, ?_, ?_⟩
  · intro t ht
    obtain ⟨v, text, hfinal, htext, hsets⟩ := Scopes.assign_eq_ok_iff.1 ht
    obtain ⟨id, k, hplace, hvar⟩ := hsets.varAt?
    refine ⟨id, k, v, text, hplace, hfinal, htext, hvar, hsets.map_shape, ?_, hsets.findAll⟩
    intro name hname
    have hall := hsets.findAll_of_ne hname
    refine ⟨?_, hall⟩
    rw [Scopes.find?_eq_head?_findAll, Scopes.find?_eq_head?_findAll, hall]
  · rintro violation t ⟨-, -, rfl⟩
    rfl

/-- In a block, the name `x` means the variable of the method, not the global one. -/
theorem assign_of_hidden_global :
    ∃ t, (assign ⟨"x", .var "y"⟩).atLine 5 ⟨.empty .block,
        [⟨.method, [⟨"y", .int, some "4", true⟩, ⟨"x", .double, none, false⟩]⟩,
          ⟨.global, [⟨"x", .char, none, false⟩]⟩]⟩ = .ok () t ∧
      t.varAt? 1 1 = some ⟨"x", .double, some "4", false⟩ ∧
      ∃ v text outside, [⟨"x", .double, none, false⟩, ⟨"x", .char, none, false⟩] = v :: outside ∧
        t.findAll "x" = ({ v with value := some text } : Variable) :: outside := by
  have hassign : (assign ⟨"x", .var "y"⟩).atLine 5 ⟨.empty .block,
        [⟨.method, [⟨"y", .int, some "4", true⟩, ⟨"x", .double, none, false⟩]⟩,
          ⟨.global, [⟨"x", .char, none, false⟩]⟩]⟩ =
      .ok () ⟨.empty .block,
        [⟨.method, [⟨"y", .int, some "4", true⟩, ⟨"x", .double, some "4", false⟩]⟩,
          ⟨.global, [⟨"x", .char, none, false⟩]⟩]⟩ := by decide +kernel
  obtain ⟨-, -, v, text, -, -, -, -, -, -, outside, hbefore, hafter⟩ :=
    (assign_changes_innermost _ _ _).2.1 _ hassign
  exact ⟨_, hassign, by decide +kernel, v, text, outside, hbefore, hafter⟩

end LineCheck
