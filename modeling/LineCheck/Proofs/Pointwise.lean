import Mathlib.Data.List.Forall2
import LineCheck.Proofs.Scopes

/-!
Scopes whose variables are related one by one.

Two stacks of open scopes can have the same form, scope by scope and variable by
variable, and differ in what is known of the variables. `Scopes.Pointwise V`
says that they do, where `V` relates variables of the same name. A name then
means related variables in both (`Pointwise.find?`, `Pointwise.findAll`,
`Pointwise.sets`), and what is done to both keeps the relation.
-/

namespace LineCheck

variable {V : Variable → Variable → Prop}

/-- The scopes are of the same kind, and their variables are related one by one,
    in order. -/
structure Scope.Pointwise (V : Variable → Variable → Prop) (a b : Scope) : Prop where
  kind : a.kind = b.kind
  vars : List.Forall₂ V a.vars b.vars

instance Scope.decidablePointwise [∀ v v', Decidable (V v v')] (a b : Scope) :
    Decidable (a.Pointwise V b) :=
  decidable_of_iff (a.kind = b.kind ∧ List.Forall₂ V a.vars b.vars)
    ⟨fun h => ⟨h.1, h.2⟩, fun h => ⟨h.1, h.2⟩⟩

/-- The open scopes are related one by one, from the inside to the outside. -/
def Scopes.Pointwise (V : Variable → Variable → Prop) (s s' : Scopes) : Prop :=
  List.Forall₂ (Scope.Pointwise V) s.toList s'.toList

instance Scopes.decidablePointwise [∀ v v', Decidable (V v v')] (s s' : Scopes) :
    Decidable (s.Pointwise V s') :=
  inferInstanceAs (Decidable (List.Forall₂ (Scope.Pointwise V) s.toList s'.toList))

/-- Lists that are related one by one, where a place of the first is given. -/
theorem exists_of_forall₂_append_cons {α : Type} {R : α → α → Prop} {before after l' : List α}
    {a : α} (h : List.Forall₂ R (before ++ a :: after) l') :
    ∃ before' a' after', l' = before' ++ a' :: after' ∧ List.Forall₂ R before before' ∧ R a a' ∧
      List.Forall₂ R after after' := by
  induction before generalizing l' with
  | nil =>
    obtain ⟨a', after', ha, hafter, rfl⟩ := List.forall₂_cons_left_iff.1 h
    exact ⟨[], a', after', rfl, .nil, ha, hafter⟩
  | cons b before ih =>
    obtain ⟨b', l', hb, hrest, rfl⟩ := List.forall₂_cons_left_iff.1 h
    obtain ⟨before', a', after', rfl, hbefore, ha, hafter⟩ := ih hrest
    exact ⟨b' :: before', a', after', rfl, .cons hb hbefore, ha, hafter⟩

theorem exists_mem_of_forall₂ {α : Type} {R : α → α → Prop} {l l' : List α}
    (h : List.Forall₂ R l l') {a : α} (ha : a ∈ l) : ∃ a' ∈ l', R a a' := by
  obtain ⟨before, after, rfl⟩ := List.append_of_mem ha
  obtain ⟨before', a', after', rfl, -, hR, -⟩ := exists_of_forall₂_append_cons h
  exact ⟨a', by simp, hR⟩

theorem forall_mem_of_forall₂ {α : Type} {R : α → α → Prop} {P Q : α → Prop} {l l' : List α}
    (h : List.Forall₂ R l l') (hPQ : ∀ a a', R a a' → P a → Q a') (hP : ∀ a ∈ l, P a) :
    ∀ a' ∈ l', Q a' := by
  induction h with
  | nil => simp
  | cons ha _ ih =>
    rw [List.forall_mem_cons] at hP ⊢
    exact ⟨hPQ _ _ ha hP.1, ih hP.2⟩

theorem forall₂_getLast {α : Type} {R : α → α → Prop} {l l' : List α} (h : List.Forall₂ R l l')
    (hl : l ≠ []) (hl' : l' ≠ []) : R (l.getLast hl) (l'.getLast hl') := by
  induction h with
  | nil => exact absurd rfl hl
  | cons ha hrest ih =>
    cases hrest with
    | nil => exact ha
    | cons => exact ih (List.cons_ne_nil _ _) (List.cons_ne_nil _ _)

/-- Lists that are the same but for one place. -/
theorem forall₂_append_cons {α : Type} {R : α → α → Prop} (hR : ∀ a, R a a) {a b : α} (hab : R a b)
    (before after : List α) : List.Forall₂ R (before ++ a :: after) (before ++ b :: after) :=
  List.rel_append (List.forall₂_same.2 fun c _ => hR c)
    (.cons hab (List.forall₂_same.2 fun c _ => hR c))

theorem forall₂_trans {α : Type} {R : α → α → Prop} (hR : ∀ a b c, R a b → R b c → R a c)
    {l l' l'' : List α} (h : List.Forall₂ R l l') (h' : List.Forall₂ R l' l'') :
    List.Forall₂ R l l'' := by
  induction h generalizing l'' with
  | nil => exact h'
  | cons hab _ ih =>
    cases h' with
    | cons hbc hrest => exact .cons (hR _ _ _ hab hbc) (ih hrest)

theorem exists_getElem?_of_forall₂ {α : Type} {R : α → α → Prop} {l l' : List α}
    (h : List.Forall₂ R l l') {k : Nat} {a : α} (ha : l[k]? = some a) :
    ∃ b, l'[k]? = some b ∧ R a b := by
  induction h generalizing k with
  | nil => simp at ha
  | @cons x y l l' hxy _ ih =>
    cases k with
    | zero =>
      obtain rfl : x = a := by simpa using ha
      exact ⟨y, rfl, hxy⟩
    | succ k => exact ih ha

/-! ## One scope -/

namespace Scope.Pointwise

variable {a b c : Scope}

theorem refl (hV : ∀ v, V v v) (a : Scope) : a.Pointwise V a :=
  ⟨rfl, List.forall₂_same.2 fun v _ => hV v⟩

theorem trans (hV : ∀ u v w, V u v → V v w → V u w) (h : a.Pointwise V b) (h' : b.Pointwise V c) :
    a.Pointwise V c :=
  ⟨h.kind.trans h'.kind, forall₂_trans hV h.vars h'.vars⟩

theorem push (h : a.Pointwise V b) {v v' : Variable} (hv : V v v') :
    (a.push v).Pointwise V (b.push v') :=
  ⟨h.kind, List.rel_append h.vars (.cons hv .nil)⟩

/-- A name is in both scopes or in neither. -/
theorem get? (hname : ∀ {v v'}, V v v' → v'.name = v.name) (h : a.Pointwise V b) (name : String) :
    Option.Rel V (a.get? name) (b.get? name) := by
  have hvars := h.vars
  unfold Scope.get?
  generalize a.vars = vars at hvars ⊢
  generalize b.vars = vars' at hvars ⊢
  induction hvars with
  | nil => exact .none
  | @cons v v' vars vars' hv _ ih =>
    rw [List.find?_cons, List.find?_cons, hname hv]
    cases v.name == name with
    | true => exact .some hv
    | false => exact ih

theorem get?_eq_none (hname : ∀ {v v'}, V v v' → v'.name = v.name) (h : a.Pointwise V b)
    {name : String} (ha : a.get? name = none) : b.get? name = none := by
  have hget := h.get? hname name
  rw [ha] at hget
  generalize b.get? name = found at hget ⊢
  cases hget
  rfl

end Scope.Pointwise

/-! ## All scopes -/

namespace Scopes.Pointwise

variable {s s' : Scopes}

theorem current (h : s.Pointwise V s') : s.current.Pointwise V s'.current :=
  (List.forall₂_cons.1 h).1

theorem global (h : s.Pointwise V s') : s.global.Pointwise V s'.global :=
  forall₂_getLast h _ _

theorem enter (h : s.Pointwise V s') (kind : ScopeKind) :
    (s.enter kind).Pointwise V (s'.enter kind) :=
  .cons ⟨rfl, .nil⟩ h

theorem leave (h : s.Pointwise V s') : s.leave.Pointwise V s'.leave := by
  obtain ⟨current, outer⟩ := s
  obtain ⟨current', outer'⟩ := s'
  have houter : List.Forall₂ (Scope.Pointwise V) outer outer' := (List.forall₂_cons.1 h).2
  cases houter with
  | nil => exact h
  | cons hscope hrest => exact .cons hscope hrest

theorem push (h : s.Pointwise V s') {v v' : Variable} (hv : V v v') :
    (s.push v).Pointwise V (s'.push v') :=
  .cons (h.current.push hv) (List.forall₂_cons.1 h).2

variable (hname : ∀ {v v'}, V v v' → v'.name = v.name)

include hname

theorem findAll (h : s.Pointwise V s') (name : String) :
    List.Forall₂ V (s.findAll name) (s'.findAll name) :=
  List.rel_filterMap (fun _ _ hscope => hscope.get? hname name) h

theorem find? (h : s.Pointwise V s') (name : String) :
    Option.Rel V (s.find? name) (s'.find? name) := by
  have hall := h.findAll hname name
  rw [find?_eq_head?_findAll, find?_eq_head?_findAll]
  generalize s.findAll name = found at hall ⊢
  generalize s'.findAll name = found' at hall ⊢
  cases hall with
  | nil => exact .none
  | cons hv _ => exact .some hv

theorem exists_find?_eq_some (h : s.Pointwise V s') {name : String} {v : Variable}
    (hv : s.find? name = some v) : ∃ v', s'.find? name = some v' ∧ V v v' := by
  have hfind := h.find? hname name
  rw [hv] at hfind
  generalize s'.find? name = found at hfind ⊢
  cases hfind with
  | some hv' => exact ⟨_, rfl, hv'⟩

/-- A name means variables at the same place, and values can be set there. -/
theorem sets (h : s.Pointwise V s') {name value : String} {v : Variable} {t : Scopes}
    (hset : s.Sets name value v t) (value' : String) :
    ∃ v' t', V v v' ∧ s'.Sets name value' v' t' ∧
      (V { v with value := some value } { v' with value := some value' } → t.Pointwise V t') := by
  obtain ⟨inner, kind, before, after, outer, hinner, hbefore, rfl, hs, ht⟩ := hset
  unfold Pointwise at h
  rw [hs] at h
  obtain ⟨inner', ⟨kind', vars'⟩, outer', hs', hin, ⟨hkind, hvars⟩, hout⟩ :=
    exists_of_forall₂_append_cons h
  obtain ⟨before', v', after', rfl, hbef, hv, haft⟩ := exists_of_forall₂_append_cons hvars
  obtain ⟨t', ht'⟩ := Scopes.exists_toList_eq
    (show inner' ++ ⟨kind', before' ++ { v' with value := some value' } :: after'⟩ :: outer' ≠ [] by
      simp)
  have hinner' : ∀ scope ∈ inner', scope.get? v.name = none :=
    forall_mem_of_forall₂ hin (fun _ _ hscope => hscope.get?_eq_none hname) hinner
  have hbefore' : ∀ u ∈ before', u.name ≠ v.name := by
    refine forall_mem_of_forall₂ hbef (fun u u' hu hne => ?_) hbefore
    rwa [hname hu]
  refine ⟨v', t', hv,
    ⟨inner', kind', before', after', outer', hinner', hbefore', hname hv, hs', ht'⟩, ?_⟩
  intro hset
  unfold Pointwise
  rw [ht, ht']
  exact List.rel_append hin (.cons ⟨hkind, List.rel_append hbef (.cons hset haft)⟩ hout)

end Scopes.Pointwise

end LineCheck
