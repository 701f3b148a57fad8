import LineCheck.Proofs.Scopes
import LineCheck.Proofs.Simulation
import LineCheck.Proofs.StopLine

/-!
Extending an accepted program.

The lines that follow an accepted program may add global variables and methods,
and both are known in the bodies that stand before them. `Widened` relates the
scopes of the program alone to those with more global variables; a body that is
legal in the former is legal in the latter (`simulation_widened`). So what is
added can only be wrong itself: `checkLines_append`.
-/

namespace LineCheck

/-! ## More global variables -/

/-- The second scopes are the first with more variables at the end of the global
    one. The number counts the scopes around the current one. -/
inductive Widened (extra : List Variable) : Nat → Scopes → Scopes → Prop
  | global (g : Scope) : Widened extra 0 ⟨g, []⟩ ⟨{ g with vars := g.vars ++ extra }, []⟩
  | inner (scope : Scope) {n : Nat} {s s' : Scopes} (h : Widened extra n s s') :
    Widened extra (n + 1) ⟨scope, s.toList⟩ ⟨scope, s'.toList⟩

namespace Widened

variable {extra : List Variable} {n : Nat} {s s' : Scopes}

theorem find?_eq_some (h : Widened extra n s s') {name : String} {v : Variable}
    (hv : s.find? name = some v) : s'.find? name = some v := by
  induction h with
  | global g =>
    have hg : g.get? name = some v := by simpa [Scopes.find?, Scopes.toList] using hv
    have hg' : g.vars.find? (·.name == name) = some v := hg
    simp [Scopes.find?, Scopes.toList, Scope.get?, hg']
  | inner scope _ ih =>
    simp only [Scopes.find?, Scopes.toList, List.findSome?_cons] at hv ih ⊢
    cases hs : scope.get? name with
    | some u => simpa [hs] using hv
    | none =>
      rw [hs] at hv
      exact ih hv

theorem mem_findAll (h : Widened extra n s s') {name : String} {v : Variable}
    (hv : v ∈ s.findAll name) : v ∈ s'.findAll name := by
  induction h with
  | global g =>
    have hg : g.vars.find? (·.name == name) = some v := by
      simpa [Scopes.findAll, Scopes.toList, Scope.get?] using hv
    simp [Scopes.findAll, Scopes.toList, Scope.get?, hg]
  | inner scope _ ih =>
    simp only [Scopes.findAll, Scopes.toList, List.filterMap_cons] at hv ih ⊢
    cases hs : scope.get? name with
    | some u =>
      rw [hs] at hv
      rcases List.mem_cons.1 hv with rfl | hv
      · exact List.mem_cons_self
      · exact List.mem_cons_of_mem _ (ih hv)
    | none =>
      rw [hs] at hv
      exact ih hv

theorem valueFor_eq_ok (h : Widened extra n s s') {target : Ty} {operand : Operand} {value : String}
    (hv : s.valueFor target operand = .ok value) : s'.valueFor target operand = .ok value := by
  cases operand with
  | literal l => exact hv
  | var name =>
    obtain ⟨v, hfind, hvalue, haccepts⟩ := Scopes.valueFor_var_eq_ok_iff.1 hv
    exact Scopes.valueFor_var_eq_ok_iff.2 ⟨v, h.find?_eq_some hfind, hvalue, haccepts⟩

/-- The variable that a name means is the same, and setting it leaves the other
    variables. -/
theorem sets (h : Widened extra n s s') {name value : String} {v : Variable} {t : Scopes}
    (hset : s.Sets name value v t) : ∃ t', s'.Sets name value v t' ∧ Widened extra n t t' := by
  induction h generalizing t with
  | global g =>
    obtain ⟨inner, kind, before, after, outer, hinner, hbefore, hname, hs, ht⟩ := hset
    obtain ⟨rfl, hg, rfl⟩ : inner = [] ∧ g = ⟨kind, before ++ v :: after⟩ ∧ outer = [] := by
      cases inner with
      | nil => simpa [Scopes.toList, eq_comm] using hs
      | cons u inner => simp [Scopes.toList] at hs
    subst hg
    obtain rfl : t = ⟨⟨kind, before ++ { v with value := some value } :: after⟩, []⟩ :=
      Scopes.toList_injective ht
    refine ⟨_, ⟨[], kind, before, after ++ extra, [], by simp, hbefore, hname, ?_, ?_⟩, .global _⟩
    · simp [Scopes.toList]
    · simp [Scopes.toList]
  | @inner scope n s s' h ih =>
    obtain ⟨inner, kind, before, after, outer, hinner, hbefore, hname, hs, ht⟩ := hset
    cases inner with
    | nil =>
      -- the name is in the current scope
      obtain ⟨rfl, rfl⟩ : scope = ⟨kind, before ++ v :: after⟩ ∧ s.toList = outer := by
        simpa [Scopes.toList] using hs
      obtain rfl : t = ⟨⟨kind, before ++ { v with value := some value } :: after⟩, s.toList⟩ :=
        Scopes.toList_injective ht
      exact ⟨_, ⟨[], kind, before, after, s'.toList, by simp, hbefore, hname, rfl, rfl⟩,
        .inner _ h⟩
    | cons u inner =>
      obtain ⟨rfl, hrest⟩ : scope = u ∧
          s.toList = inner ++ ⟨kind, before ++ v :: after⟩ :: outer := by
        simpa [Scopes.toList] using hs
      obtain ⟨t₀, ht₀⟩ := Scopes.exists_toList_eq
        (show inner ++ ⟨kind, before ++ { v with value := some value } :: after⟩ :: outer ≠ []
          by simp)
      obtain rfl : t = ⟨scope, t₀.toList⟩ := Scopes.toList_injective (by rw [ht, ht₀]; rfl)
      have hset₀ : s.Sets name value v t₀ := ⟨inner, kind, before, after, outer,
        fun scope' hmem => hinner scope' (by simp [hmem]), hbefore, hname, hrest, ht₀⟩
      obtain ⟨t', hset', hw⟩ := ih hset₀
      exact ⟨⟨scope, t'.toList⟩, hset'.inner (hinner scope (by simp)), .inner scope hw⟩

theorem isTerm_eq_true (h : Widened extra n s s') {text : List Char}
    (ht : Condition.isTerm s text = true) : Condition.isTerm s' text = true := by
  unfold Condition.isTerm at ht ⊢
  split
  · rename_i hscan
    simpa [hscan] using ht
  · rename_i name hscan
    simp only [hscan, List.any_eq_true] at ht ⊢
    obtain ⟨v, hv, hcond⟩ := ht
    exact ⟨v, h.mem_findAll hv, hcond⟩
  · simp_all

theorem refl (g : Scope) : Widened [] 0 ⟨g, []⟩ ⟨g, []⟩ := by
  have h : Widened [] 0 ⟨g, []⟩ ⟨{ g with vars := g.vars ++ [] }, []⟩ := .global g
  rwa [List.append_nil] at h

theorem trans {more : List Variable} {t : Scopes} (h : Widened extra 0 s s')
    (h' : Widened more 0 s' t) : Widened (extra ++ more) 0 s t := by
  cases h with
  | global g =>
    cases h' with
    | global =>
      rw [List.append_assoc]
      exact .global g

end Widened

/-! ## Bodies in wider scopes -/

/-- The method with a name is the same in a table with more methods. -/
theorem MethodTable.get?_of_append {methods methods' : MethodTable} {ms : List Method}
    (h : methods'.toList = methods.toList ++ ms) {name : String} {m : Method}
    (hm : methods.get? name = some m) : methods'.get? name = some m := by
  unfold get? at hm ⊢
  rw [h, List.find?_append, hm]
  rfl

/-- **What is legal in a body stays legal** where there are more methods and
    more global variables. -/
theorem simulation_widened {methods methods' : MethodTable} {ms : List Method}
    (hms : methods'.toList = methods.toList ++ ms) (extra : List Variable) :
    Simulation methods methods' (Widened extra) where
  enter kind hw := .inner (.empty kind) hw
  leave hw := by
    cases hw with
    | inner scope hw => exact hw
  define hw hdef := by
    cases hw with
    | inner scope hw =>
      obtain ⟨hnew, rfl⟩ := Scopes.define_eq_ok_iff.1 hdef
      exact ⟨_, Scopes.define_eq_ok_iff.2 ⟨hnew, rfl⟩, .inner _ hw⟩
  declareItem {n s s' t isFinal ty d} hw hdecl := by
    obtain ⟨hnew, value, hvalue, rfl⟩ := Scopes.declareItem_eq_ok_iff.1 hdecl
    have hvalue' : s'.initialValue isFinal ty d = .ok value := by
      rcases Scopes.initialValue_eq_ok_iff.1 hvalue with hnone | ⟨operand, text, hd, htext, hsome⟩
      · exact Scopes.initialValue_eq_ok_iff.2 (.inl hnone)
      · exact Scopes.initialValue_eq_ok_iff.2
          (.inr ⟨operand, text, hd, hw.valueFor_eq_ok htext, hsome⟩)
    cases hw with
    | inner scope hw =>
      exact ⟨_, Scopes.declareItem_eq_ok_iff.2 ⟨hnew, value, hvalue', rfl⟩, .inner _ hw⟩
  assign hw hassign := by
    obtain ⟨v, value, hfinal, hvalue, hset⟩ := Scopes.assign_eq_ok_iff.1 hassign
    obtain ⟨t', hset', hw'⟩ := hw.sets hset
    exact ⟨t', Scopes.assign_eq_ok_iff.2 ⟨v, value, hfinal, hw.valueFor_eq_ok hvalue, hset'⟩, hw'⟩
  call hw hcall := MethodTable.checkCall_of_valueFor (MethodTable.get?_of_append hms)
    (fun hv => ⟨_, hw.valueFor_eq_ok hv⟩) hcall
  condition hw hcond := Condition.check_of_isTerm hw.isTerm_eq_true hcond

/-! ## Introducing more parts -/

theorem widened_of_declareItems {isFinal : Bool} {ty : Ty} {items : List Declarator} {g : Scope}
    {s : Scopes} {u : Unit} (h : declareItems isFinal ty items ⟨g, []⟩ = .ok u s) :
    ∃ extra, Widened extra 0 ⟨g, []⟩ s := by
  induction items generalizing g with
  | nil =>
    cases h
    exact ⟨[], .refl g⟩
  | cons d ds ih =>
    obtain ⟨u', t, hd, hds⟩ := bind_eq_ok_iff.1 h
    obtain ⟨-, value, -, rfl⟩ := Scopes.declareItem_eq_ok_iff.1 (Resolving.update_eq_ok_iff.1 hd)
    obtain ⟨extra, hw⟩ := ih hds
    exact ⟨_, (Widened.global g).trans hw⟩

namespace Program

theorem widened_of_introduce {p : Program} {count : Nat} {methods methods' : MethodTable}
    {g : Scope} {s : Scopes} (h : p.introduce count methods ⟨g, []⟩ = .ok methods' s) :
    ∃ extra, Widened extra 0 ⟨g, []⟩ s := by
  induction p generalizing count methods g with
  | nil =>
    cases h
    exact ⟨[], .refl g⟩
  | cons part parts ih =>
    cases part with
    | trivia line => exact ih h
    | declaration line =>
      obtain ⟨u, t, hline, hparts⟩ := bind_eq_ok_iff.1 h
      obtain ⟨d, n, -, hd⟩ := globalStatement_eq_ok_iff.1 hline
      obtain ⟨u', t', hitems, ht⟩ := bind_eq_ok_iff.1 hd
      cases ht
      obtain ⟨extra, hw⟩ := widened_of_declareItems hitems
      cases hw with
      | global =>
        obtain ⟨more, hw'⟩ := ih hparts
        exact ⟨_, (Widened.global g).trans hw'⟩
    | method header body close =>
      obtain ⟨methods₁, t, hheader, hparts⟩ := bind_eq_ok_iff.1 h
      obtain ⟨rfl, -⟩ := globalBlock_eq_ok_iff.1 hheader
      exact ih hparts

theorem lines_append (p q : Program) : lines (p ++ q) = p.lines ++ q.lines :=
  List.flatMap_append

theorem bodies_append (p q : Program) : bodies (p ++ q) = p.bodies ++ q.bodies := by
  induction p with
  | nil => rfl
  | cons part parts ih => cases part <;> simp [bodies, ih]

theorem introduce_append (p q : Program) (count : Nat) (methods : MethodTable) :
    introduce count methods (p ++ q) = (do
      let methods' ← p.introduce count methods
      q.introduce (count + p.lines.length) methods') := by
  induction p generalizing count methods with
  | nil => simp [introduce, lines]
  | cons part parts ih =>
    have hlength : ∀ k, k + part.lines.length + (lines parts).length =
        k + (lines (part :: parts)).length := by
      intro k
      rw [lines_cons, List.length_append, Nat.add_assoc]
    rw [← hlength]
    cases part with
    | trivia line => simp only [List.cons_append, introduce, ih]; rfl
    | declaration line => simp only [List.cons_append, introduce, ih, bind_assoc]; rfl
    | method header body close =>
      simp only [List.cons_append, introduce, ih, bind_assoc, Part.length_lines_method]
      rfl

theorem length_headers (p : Program) (count : Nat) :
    (p.headers count).length = p.bodies.length := by
  induction p generalizing count with
  | nil => rfl
  | cons part parts ih => cases part <;> simp [headers, bodies, ih]

theorem lt_of_mem_headers {p : Program} {count line : Nat} (h : line ∈ p.headers count) :
    count < line := by
  induction p generalizing count with
  | nil => simp [headers] at h
  | cons part parts ih =>
    cases part with
    | trivia _ | declaration _ =>
      have := ih h
      omega
    | method header body close =>
      rcases List.mem_cons.1 h with rfl | h
      · exact Nat.lt_succ_self count
      · have := ih h
        omega

end Program

theorem checkBodies_append (methods : MethodTable) (xs ys : List (Method × Body)) :
    checkBodies methods (xs ++ ys) = (do
      checkBodies methods xs
      checkBodies methods ys) := by
  induction xs with
  | nil => rfl
  | cons pair xs ih => simp only [List.cons_append, checkBodies, ih, bind_assoc]

/-! ## Accepted programs and what follows them -/

/-- What is known of a program that is accepted. -/
theorem Program.exists_of_verdict_eq_ok {p : Program} {summary : Summary}
    (h : p.verdict = .ok summary) :
    ∃ methods g t, p.introduce 0 .empty .initial = .ok methods g ∧
      checkBodies methods (methods.toList.zip p.bodies) g = .ok () t := by
  unfold verdict at h
  cases hcheck : p.check .initial with
  | error v s =>
    rw [hcheck] at h
    cases h
  | ok summary' s =>
    obtain ⟨methods, g, hintro, hrest⟩ := bind_eq_ok_iff.1 hcheck
    obtain ⟨u, t, hbodies, -⟩ := bind_eq_ok_iff.1 hrest
    exact ⟨methods, g, t, hintro, hbodies⟩

/-- After an accepted program, more parts whose globals can be introduced leave
    its bodies legal, so the check gets to the bodies of the new parts. -/
theorem Program.check_append {p q : Program} {methods methods' : MethodTable} {g g' t : Scopes}
    (hp : p.introduce 0 .empty .initial = .ok methods g)
    (hbodies : checkBodies methods (methods.toList.zip p.bodies) g = .ok () t)
    (hq : q.introduce p.lines.length methods g = .ok methods' g') :
    ∃ (ms : List Method) (t' : Scopes), ms.map Method.line = q.headers p.lines.length ∧
      check (p ++ q) .initial = (do
        checkBodies methods' (ms.zip q.bodies)
        let scopes ← get
        return ⟨(lines (p ++ q)).length, methods'.size, scopes.global.vars.length⟩ :
          Checking Summary) t' := by
  obtain ⟨msp, hmsp, hlinesp⟩ := introduce_eq_ok hp
  obtain ⟨ms, hms, hlines⟩ := introduce_eq_ok hq
  have hlength : methods.toList.length = p.bodies.length := by
    rw [hmsp, ← length_headers p 0, ← hlinesp, List.length_map]
    rfl
  -- both are surveyed in the global scope alone
  obtain ⟨extra₀, hw₀⟩ := widened_of_introduce hp
  obtain ⟨extra, hw⟩ : ∃ extra, Widened extra 0 g g' := by
    cases hw₀ with
    | global => exact widened_of_introduce hq
  obtain ⟨t', ht', -⟩ := (simulation_widened hms extra).checkBodies (methods.toList.zip p.bodies) 0
    hw hbodies
  refine ⟨ms, t', hlines, ?_⟩
  have hzip : methods'.toList.zip (bodies (p ++ q)) =
      methods.toList.zip p.bodies ++ ms.zip q.bodies := by
    rw [hms, bodies_append, List.zip_append hlength]
  have hintro : introduce 0 .empty (p ++ q) .initial = .ok methods' g' := by
    rw [introduce_append, bind_of_ok hp, Nat.zero_add, hq]
  rw [check, bind_of_ok hintro, hzip, checkBodies_append, bind_assoc, bind_of_ok ht']

/-- **An accepted program stays accepted as far as it goes.** Whatever lines
    follow it, the check of them all succeeds or stops at one of the lines that
    follow. -/
theorem checkLines_append {lines : List String} {summary : Summary}
    (h : checkLines lines = .ok summary) (more : List String) :
    (∃ summary', checkLines (lines ++ more) = .ok summary') ∨
      ∃ v, checkLines (lines ++ more) = .error v ∧ lines.length < v.line := by
  obtain ⟨p, rfl⟩ := exists_program_of_checkLines h
  rw [checkLines_lines] at h
  obtain ⟨methods, g, t, hintro, hbodies⟩ := p.exists_of_verdict_eq_ok h
  have hsurvey := survey_program p 0 .empty more
  rw [Nat.zero_add] at hsurvey
  cases hmore : survey p.lines.length ⟨0, methods⟩ more g with
  | error v s =>
    right
    have hline := (line_of_survey_eq_error hmore).2
    refine ⟨v, ?_, by simpa using hline⟩
    have hall : surveyAll (p.lines ++ more) .initial = .error v s := by
      rw [surveyAll, hsurvey, bind_of_ok hintro, bind_of_error hmore]
    rw [checkLines, checkProgram, bind_of_error hall]
  | ok found s =>
    -- what follows is a program too, and its globals can be introduced
    obtain ⟨q, rfl⟩ := exists_program_of_survey hmore
    have hq := hmore
    rw [← List.append_nil q.lines, survey_program] at hq
    obtain ⟨methods', g', hq, -⟩ := bind_eq_ok_iff.1 hq
    obtain ⟨ms, t', hlines, hcheck⟩ := p.check_append hintro hbodies hq
    rw [← Program.lines_append, checkLines_lines, Program.verdict, hcheck]
    cases hrest : checkBodies methods' (ms.zip q.bodies) t' with
    | ok u t'' =>
      rw [bind_of_ok hrest]
      exact .inl ⟨_, rfl⟩
    | error v t'' =>
      rw [bind_of_error hrest]
      refine .inr ⟨v, rfl, ?_⟩
      obtain ⟨⟨m, body⟩, hmem, hle, -⟩ := line_of_checkBodies_eq_error hrest
      have hm : m.line ∈ q.headers p.lines.length := by
        rw [← hlines]
        exact List.mem_map_of_mem (List.of_mem_zip hmem).1
      exact Nat.lt_of_lt_of_le (Program.lt_of_mem_headers hm) hle

theorem checkLines_append_global_after_method :
    checkLines ["int a;", "void f() \x7b", "a = 1;", "return;", "\x7d"] = .ok ⟨5, 1, 1⟩ ∧
      ((∃ summary, checkLines (["int a;", "void f() \x7b", "a = 1;", "return;", "\x7d"] ++
        ["int b = a;"]) = .ok summary) ∨
      ∃ v, checkLines (["int a;", "void f() \x7b", "a = 1;", "return;", "\x7d"] ++
        ["int b = a;"]) = .error v ∧ 5 < v.line) := by
  have h : checkLines ["int a;", "void f() \x7b", "a = 1;", "return;", "\x7d"] = .ok ⟨5, 1, 1⟩ := by
    decide +kernel
  exact ⟨h, checkLines_append h ["int b = a;"]⟩

end LineCheck
