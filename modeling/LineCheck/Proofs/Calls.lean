import Mathlib.Data.Fintype.EquivFin
import Mathlib.Data.List.Nodup
import LineCheck.Proofs.Declarations
import LineCheck.Proofs.Survey

/-!
Calls and declarations agree.

An argument is a value of its parameter if a variable of the type of the
parameter could be declared with it (`declareArgument`). So a call is legal if
all these declarations are, and of an illegal one the first declaration that
fails tells the fault (`checkArgs_eq_error`), as a fault of an argument
(`ArgumentFault`). Of a method a call uses the name and the types of the
parameters alone (`checkCall_of_signature?`).
-/

namespace LineCheck

/-! ## Registered methods -/

namespace MethodTable

/-- The table after a registration, whether it succeeds or fails. -/
def attempt (t : MethodTable) (entry : MethodHeader × Nat) : MethodTable :=
  match t.register entry.1 entry.2 with
  | .ok t' => t'
  | .error _ => t

/-- The names of the methods are distinct. -/
def Distinct (t : MethodTable) : Prop :=
  (t.toList.map Method.name).Nodup

theorem get?_eq_none_iff {t : MethodTable} {name : String} :
    t.get? name = none ↔ name ∉ t.toList.map Method.name := by
  simp [get?]

theorem name_of_get? {t : MethodTable} {name : String} {m : Method} (h : t.get? name = some m) :
    m.name = name := by
  simpa using List.find?_some h

theorem Distinct.attempt {t : MethodTable} (h : t.Distinct) (entry : MethodHeader × Nat) :
    (t.attempt entry).Distinct := by
  unfold MethodTable.attempt
  cases hr : t.register entry.1 entry.2 with
  | error fault => exact h
  | ok t' =>
    obtain ⟨hnew, params, -, rfl⟩ := register_eq_ok_iff.1 hr
    have hpush : (t.push ⟨entry.1.name, params, entry.2⟩).toList.map Method.name =
        (t.toList.map Method.name).concat entry.1.name := by simp [push]
    rw [Distinct, hpush]
    exact h.concat (get?_eq_none_iff.1 hnew)

theorem Distinct.get?_eq_some_iff {t : MethodTable} (h : t.Distinct) {name : String} {m : Method} :
    t.get? name = some m ↔ m ∈ t.toList ∧ m.name = name := by
  constructor
  · intro hm
    exact ⟨List.mem_of_find?_eq_some hm, name_of_get? hm⟩
  · rintro ⟨hm, rfl⟩
    cases hget : t.get? m.name with
    | none => exact absurd (List.mem_map_of_mem hm) (get?_eq_none_iff.1 hget)
    | some m' =>
      have hname := name_of_get? hget
      rw [List.inj_on_of_nodup_map h (List.mem_of_find?_eq_some hget) hm hname]

end MethodTable

/-- The methods after some registrations, one after the other. -/
def registry (entries : List (MethodHeader × Nat)) : MethodTable :=
  entries.foldl MethodTable.attempt .empty

/-- **A name is registered once.** -/
theorem distinct_registry (entries : List (MethodHeader × Nat)) : (registry entries).Distinct := by
  have hfold : ∀ t : MethodTable, t.Distinct → (entries.foldl MethodTable.attempt t).Distinct := by
    induction entries with
    | nil => exact fun t ht => ht
    | cons entry entries ih => exact fun t ht => ih _ (ht.attempt entry)
  exact hfold .empty List.nodup_nil

/-! ## Arguments -/

/-- A name that the current scope does not have. -/
theorem Scopes.exists_get?_eq_none (s : Scopes) : ∃ name, s.current.get? name = none := by
  obtain ⟨name, hname⟩ :=
    Infinite.exists_notMem_finset (s.current.vars.map Variable.name).toFinset
  refine ⟨name, Scope.get?_eq_none_iff.2 fun v hv heq => hname ?_⟩
  exact List.mem_toFinset.2 (List.mem_map.2 ⟨v, hv, heq⟩)

/-- Declares a variable that is not final, with an argument as its value. -/
def declareArgument (name : String) (ty : Ty) (arg : Operand) : Resolving Nat :=
  declare ⟨false, ty, [⟨name, some arg⟩]⟩

section Argument

variable {s t : Scopes} {name : String} {ty : Ty} {arg : Operand}

theorem declareArgument_of_ok {text : String} (hname : s.current.get? name = none)
    (h : s.valueFor ty arg = .ok text) :
    declareArgument name ty arg s = .ok 1 (s.push ⟨name, ty, some text, false⟩) := by
  have hitem : s.Admits false ty ⟨name, some arg⟩ ⟨name, ty, some text, false⟩ :=
    .assigned hname rfl h
  exact bind_of_ok (bind_of_ok (Resolving.update_of_ok hitem.declareItem))

theorem declareArgument_of_error {fault : Fault} (hname : s.current.get? name = none)
    (h : s.valueFor ty arg = .error fault) : declareArgument name ty arg s = .error fault s := by
  have hitem : s.Refuses false ty ⟨name, some arg⟩ fault := .value hname rfl h
  exact bind_of_error (bind_of_error (Resolving.update_of_error hitem.declareItem))

theorem exists_declareArgument_eq_ok_iff (hname : s.current.get? name = none) :
    (∃ t, declareArgument name ty arg s = .ok 1 t) ↔ ∃ text, s.valueFor ty arg = .ok text := by
  cases h : s.valueFor ty arg with
  | ok text => simp [declareArgument_of_ok hname h]
  | error fault => simp [declareArgument_of_error hname h]

theorem declareArgument_eq_error_iff {fault : Fault} (hname : s.current.get? name = none) :
    declareArgument name ty arg s = .error fault t ↔ s.valueFor ty arg = .error fault ∧ s = t := by
  cases h : s.valueFor ty arg with
  | ok text => simp [declareArgument_of_ok hname h]
  | error fault' => simp [declareArgument_of_error hname h]

/-- The fault of a declared argument, and the fault of a call with it at index `i`. -/
inductive ArgumentFault (method : String) (i : Nat) (ty : Ty) (arg : Operand) : Fault → Fault → Prop
  | mismatch (expected : Ty) (found : String) :
    ArgumentFault method i ty arg (.typeMismatch expected found)
      (.argumentType method (i + 1) ty arg.text)
  | incompatible (name : String) (expected found : Ty) :
    ArgumentFault method i ty arg (.incompatibleVariable name expected found)
      (.argumentType method (i + 1) ty arg.text)
  | undefined (name : String) :
    ArgumentFault method i ty arg (.undefinedVariable name) (.undefinedVariable name)
  | unassigned (name : String) :
    ArgumentFault method i ty arg (.unassignedVariable name) (.unassignedVariable name)

theorem argumentFault_of_valueFor {fault : Fault} (h : s.valueFor ty arg = .error fault)
    (method : String) (i : Nat) :
    ArgumentFault method i ty arg fault (fault.inArgument method (i + 1)) := by
  cases arg with
  | literal l =>
    rw [Scopes.valueFor, Literal.valueFor] at h
    split at h
    · cases h
    · cases h
      exact .mismatch ty l.text
  | var name =>
    rw [Scopes.valueFor] at h
    cases hv : s.find? name with
    | none =>
      rw [hv] at h
      cases h
      exact .undefined name
    | some v =>
      obtain ⟨scope, -, hget⟩ := List.exists_of_findSome?_eq_some hv
      obtain rfl : v.name = name := (Scope.get?_eq_some_iff.1 hget).1
      rw [hv] at h
      dsimp only at h
      rw [Variable.valueFor] at h
      split at h
      · cases h
        exact .unassigned v.name
      · split at h
        · cases h
        · cases h
          exact .incompatible v.name ty v.ty

end Argument

/-! ## Calls -/

namespace MethodTable

/-- The first argument that is no value of its parameter tells the fault. -/
theorem checkArgs_eq_error {s : Scopes} {method : String} {position i : Nat}
    {params : List Variable} {args : List Operand} {param : Variable} {arg : Operand}
    (hi : (params.zip args)[i]? = some (param, arg))
    (hfirst : ∀ j < i, ∀ param arg, (params.zip args)[j]? = some (param, arg) →
      ∃ text, s.valueFor param.ty arg = .ok text)
    {fault : Fault} (hfault : s.valueFor param.ty arg = .error fault) :
    checkArgs s method position params args = .error (fault.inArgument method (position + i)) := by
  induction params generalizing position i args with
  | nil => simp at hi
  | cons param' params ih =>
    cases args with
    | nil => simp at hi
    | cons arg' args =>
      rw [checkArgs]
      cases i with
      | zero =>
        cases hi
        rw [hfault]
        rfl
      | succ i =>
        obtain ⟨text, htext⟩ := hfirst 0 (Nat.succ_pos i) param' arg' rfl
        rw [htext]
        have hrest : checkArgs s method (position + 1) params args =
            .error (fault.inArgument method (position + 1 + i)) :=
          ih hi fun j hj => hfirst (j + 1) (by omega)
        rwa [Nat.add_assoc, Nat.add_comm 1 i] at hrest

/-- The types of the parameters of a method. -/
def signature? (t : MethodTable) (name : String) : Option (List Ty) :=
  (t.get? name).map fun m => m.params.map Variable.ty

theorem checkArgs_of_map_ty {s : Scopes} {method : String} {position : Nat}
    {params params' : List Variable} {args : List Operand}
    (h : params.map Variable.ty = params'.map Variable.ty) :
    checkArgs s method position params args = checkArgs s method position params' args := by
  induction params generalizing position params' args with
  | nil =>
    obtain rfl : params' = [] := by simpa using h.symm
    rfl
  | cons param params ih =>
    cases params' with
    | nil => simp at h
    | cons param' params' =>
      obtain ⟨hty, hrest⟩ := List.cons_eq_cons.1 h
      cases args with
      | nil => rfl
      | cons arg args => rw [checkArgs, checkArgs, hty, ih hrest]

/-- **Of a method, a call uses the name and the types of the parameters alone.** -/
theorem checkCall_of_signature? {t t' : MethodTable} {c : Call}
    (h : t.signature? c.name = t'.signature? c.name) : t.checkCall c = t'.checkCall c := by
  unfold signature? at h
  funext s
  unfold checkCall
  cases hm : t.get? c.name with
  | none =>
    obtain hm' : t'.get? c.name = none := by simpa [hm] using h.symm
    rw [hm']
  | some m =>
    rw [hm] at h
    obtain ⟨m', hm', htys⟩ := Option.map_eq_some_iff.1 h.symm
    have hlength : m'.params.length = m.params.length := by
      simpa using congrArg List.length htys
    rw [hm']
    simp only [name_of_get? hm, name_of_get? hm', hlength, checkArgs_of_map_ty htys]

end MethodTable

/-- **A call is checked as declarations of its arguments would be.** It is legal
    if a method of its name is registered, with as many parameters as there are
    arguments, and if each argument could be the value of a new variable of the
    type of its parameter, declared where the call stands. Of the arguments that
    could not, the first one tells the fault. The names of the parameters,
    whether they are final, and where the method stands do not matter. -/
theorem call_agrees_with_declare (entries : List (MethodHeader × Nat)) (c : Call) (line : Nat)
    (s : Scopes) :
    (∃ name, s.current.get? name = none) ∧
    ((resolve (registry entries) (.call c)).atLine line s = .ok () s ↔
      ∃ m ∈ (registry entries).toList, m.name = c.name ∧ m.params.length = c.args.length ∧
        ∀ (i : Nat) (param : Variable) (arg : Operand) (name : String),
          (m.params.zip c.args)[i]? = some (param, arg) → s.current.get? name = none →
          ∃ t, (declareArgument name param.ty arg).atLine line s = .ok 1 t) ∧
    (∀ m ∈ (registry entries).toList, m.name = c.name → m.params.length = c.args.length →
      ∀ (i : Nat) (param : Variable) (arg : Operand) (name : String) (violation : Violation)
        (t : Scopes), (m.params.zip c.args)[i]? = some (param, arg) → s.current.get? name = none →
        (declareArgument name param.ty arg).atLine line s = .error violation t →
        (∀ j < i, ∀ (param' : Variable) (arg' : Operand),
          (m.params.zip c.args)[j]? = some (param', arg') →
            ∃ t', (declareArgument name param'.ty arg').atLine line s = .ok 1 t') →
        ∃ fault, ArgumentFault c.name i param.ty arg violation.fault fault ∧
          (resolve (registry entries) (.call c)).atLine line s = .error ⟨line, fault⟩ s) ∧
    ∀ entries', (registry entries').signature? c.name = (registry entries).signature? c.name →
      (resolve (registry entries') (.call c)).atLine line s =
        (resolve (registry entries) (.call c)).atLine line s := by
  have hdistinct := distinct_registry entries
  simp only [resolve, atLine_eq_ok_iff, atLine_eq_error_iff, Resolving.require_eq_ok_iff,
    Resolving.require_eq_error_iff, and_true, true_and]
  refine ⟨s.exists_get?_eq_none, ?_, ?_, ?_⟩
  · rw [MethodTable.checkCall_eq_ok_iff]
    constructor
    · rintro ⟨m, hm, hlength, hargs⟩
      obtain ⟨hmem, hname⟩ := hdistinct.get?_eq_some_iff.1 hm
      refine ⟨m, hmem, hname, hlength, fun i param arg name hi hnew => ?_⟩
      exact (exists_declareArgument_eq_ok_iff hnew).2 (hargs _ (List.mem_of_getElem? hi))
    · rintro ⟨m, hmem, hname, hlength, hargs⟩
      refine ⟨m, hdistinct.get?_eq_some_iff.2 ⟨hmem, hname⟩, hlength, ?_⟩
      rintro ⟨param, arg⟩ hpair
      obtain ⟨i, hi⟩ := List.getElem?_of_mem hpair
      obtain ⟨name, hnew⟩ := s.exists_get?_eq_none
      exact (exists_declareArgument_eq_ok_iff hnew).1 (hargs i param arg name hi hnew)
  · rintro m hmem hname hlength i param arg name violation t hi hnew ⟨-, hviolation⟩ hfirst
    obtain ⟨hfault, -⟩ := (declareArgument_eq_error_iff hnew).1 hviolation
    refine ⟨_, argumentFault_of_valueFor hfault c.name i, ?_⟩
    have hargs : MethodTable.checkArgs s m.name 1 m.params c.args =
        .error (violation.fault.inArgument m.name (1 + i)) :=
      MethodTable.checkArgs_eq_error hi (fun j hj param' arg' hj' =>
        (exists_declareArgument_eq_ok_iff hnew).1 (hfirst j hj param' arg' hj')) hfault
    rw [MethodTable.checkCall, hdistinct.get?_eq_some_iff.2 ⟨hmem, hname⟩]
    dsimp only
    rw [if_pos hlength, hargs, hname, Nat.add_comm]
  · intro entries' h
    rw [MethodTable.checkCall_of_signature? h]

/-- A second method of the same name is not registered. The first argument is
    widened, and the second one is no character. -/
theorem call_of_incompatible_argument :
    ∃ fault, ArgumentFault "f" 1 .char (.var "s") (.incompatibleVariable "s" .char .string) fault ∧
      (resolve (registry [(⟨"f", [⟨false, .double, "a", none⟩, ⟨true, .char, "b", none⟩]⟩, 2),
          (⟨"f", []⟩, 5)]) (.call ⟨"f", [.literal (.int "1"), .var "s"]⟩)).atLine 9
        ⟨.empty .method, [⟨.global, [⟨"s", .string, some "", false⟩]⟩]⟩ =
      .error ⟨9, fault⟩ ⟨.empty .method, [⟨.global, [⟨"s", .string, some "", false⟩]⟩]⟩ := by
  obtain ⟨-, -, hfirst, -⟩ := call_agrees_with_declare
    [(⟨"f", [⟨false, .double, "a", none⟩, ⟨true, .char, "b", none⟩]⟩, 2), (⟨"f", []⟩, 5)]
    ⟨"f", [.literal (.int "1"), .var "s"]⟩ 9
    ⟨.empty .method, [⟨.global, [⟨"s", .string, some "", false⟩]⟩]⟩
  refine hfirst
    ⟨"f", [⟨"a", .double, none, false⟩, ⟨"b", .char, none, true⟩], 2⟩ (by decide +kernel)
    rfl rfl 1 ⟨"b", .char, none, true⟩ (.var "s") "n" ⟨9, .incompatibleVariable "s" .char .string⟩
    ⟨.empty .method, [⟨.global, [⟨"s", .string, some "", false⟩]⟩]⟩ rfl rfl (by decide +kernel) ?_
  intro j hj param arg harg
  obtain rfl : j = 0 := by omega
  cases harg
  exact ⟨⟨⟨.method, [⟨"n", .double, some "1", false⟩]⟩,
    [⟨.global, [⟨"s", .string, some "", false⟩]⟩]⟩, by decide +kernel⟩

end LineCheck
