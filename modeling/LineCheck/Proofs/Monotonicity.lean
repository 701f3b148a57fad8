import LineCheck.Proofs.Composition
import LineCheck.Proofs.Extension
import LineCheck.Proofs.Kinds
import LineCheck.Proofs.Pointwise
import LineCheck.Proofs.Sweep

/-!
More values and fewer final variables.

A check asks of variables that they have a value and that they are not final,
never the contrary. So what is legal in some scopes is legal in scopes of the
same form where more variables have a value and fewer are final
(`Scopes.Freer`): `simulation_freer` for the single steps, and with it the walks
through methods and the check of whole programs. A global declaration can be
made freer by initial values and by leaving out the word for final variables
(`Declaration.Freer`).
-/

namespace LineCheck

/-! ## Freer variables -/

/-- The second variable is the first, or has a value where the first has none,
    or is not final where the first is. The values themselves do not matter. -/
structure Variable.Freer (v v' : Variable) : Prop where
  name : v'.name = v.name
  ty : v'.ty = v.ty
  isAssigned : v.isAssigned = true → v'.isAssigned = true
  isFinal : v'.isFinal = true → v.isFinal = true

namespace Variable

instance decidableFreer (v v' : Variable) : Decidable (v.Freer v') :=
  decidable_of_iff (v'.name = v.name ∧ v'.ty = v.ty ∧ (v.isAssigned = true → v'.isAssigned = true) ∧
      (v'.isFinal = true → v.isFinal = true))
    ⟨fun ⟨h₁, h₂, h₃, h₄⟩ => ⟨h₁, h₂, h₃, h₄⟩, fun ⟨h₁, h₂, h₃, h₄⟩ => ⟨h₁, h₂, h₃, h₄⟩⟩

theorem Freer.refl (v : Variable) : v.Freer v :=
  ⟨rfl, rfl, id, id⟩

/-- Values of both can be set. -/
theorem Freer.set {v v' : Variable} (h : v.Freer v') (value value' : String) :
    Freer { v with value := some value } { v' with value := some value' } :=
  ⟨h.name, h.ty, fun _ => rfl, h.isFinal⟩

end Variable

/-- Scopes of the same form, in which all variables are freer. -/
abbrev Scopes.Freer (s s' : Scopes) : Prop :=
  s.Pointwise Variable.Freer s'

namespace Scopes.Freer

variable {s s' : Scopes}

theorem initial : Scopes.initial.Freer .initial :=
  .cons ⟨rfl, .nil⟩ .nil

theorem valueFor (h : s.Freer s') {target : Ty} {operand : Operand} {value : String}
    (hv : s.valueFor target operand = .ok value) :
    ∃ value', s'.valueFor target operand = .ok value' := by
  cases operand with
  | literal l => exact ⟨value, hv⟩
  | var name =>
    obtain ⟨v, hfind, hvalue, haccepts⟩ := valueFor_var_eq_ok_iff.1 hv
    obtain ⟨v', hfind', hfreer⟩ := h.exists_find?_eq_some Variable.Freer.name hfind
    have hassigned : v'.isAssigned = true :=
      hfreer.isAssigned (by rw [Variable.isAssigned, hvalue]; rfl)
    obtain ⟨value', hvalue'⟩ := Option.isSome_iff_exists.1 hassigned
    refine ⟨value', valueFor_var_eq_ok_iff.2 ⟨v', hfind', hvalue', ?_⟩⟩
    rwa [hfreer.ty]

theorem isTerm (h : s.Freer s') {text : List Char} (ht : Condition.isTerm s text = true) :
    Condition.isTerm s' text = true := by
  unfold Condition.isTerm at ht ⊢
  split
  · rename_i hscan
    simpa [hscan] using ht
  · rename_i name hscan
    simp only [hscan, List.any_eq_true, Bool.and_eq_true] at ht ⊢
    obtain ⟨v, hv, hassigned, hcondition⟩ := ht
    obtain ⟨v', hv', hfreer⟩ := exists_mem_of_forall₂ (h.findAll Variable.Freer.name name) hv
    exact ⟨v', hv', hfreer.isAssigned hassigned, by rwa [hfreer.ty]⟩
  · simp_all

end Scopes.Freer

/-! ## Declarations -/

/-- The second item is the first, or gives a value of the type where the first
    gives none. -/
structure Declarator.Freer (ty : Ty) (d d' : Declarator) : Prop where
  name : d'.name = d.name
  value : d'.value = d.value ∨
    d.value = none ∧ ∃ l, d'.value = some (.literal l) ∧ ty.acceptsLiteral l = true

/-- The second declaration is the first with initial values where it has none,
    or without the word for final variables, or both. -/
structure Declaration.Freer (d d' : Declaration) : Prop where
  ty : d'.ty = d.ty
  isFinal : d'.isFinal = true → d.isFinal = true
  items : List.Forall₂ (Declarator.Freer d.ty) d.items d'.items

theorem Declarator.Freer.refl (ty : Ty) (d : Declarator) : Declarator.Freer ty d d :=
  ⟨rfl, .inl rfl⟩

theorem Scopes.Freer.declareItem {s s' t : Scopes} (h : s.Freer s') {isFinal isFinal' : Bool}
    (hfinal : isFinal' = true → isFinal = true) {ty : Ty} {d d' : Declarator}
    (hd : Declarator.Freer ty d d') (ht : s.declareItem isFinal ty d = .ok t) :
    ∃ t', s'.declareItem isFinal' ty d' = .ok t' ∧ t.Freer t' := by
  obtain ⟨hnew, value, hvalue, rfl⟩ := declareItem_eq_ok_iff.1 ht
  have hnew' : s'.current.get? d'.name = none := by
    rw [hd.name]
    exact h.current.get?_eq_none Variable.Freer.name hnew
  -- an initial value is there if there was one before
  obtain ⟨value', hvalue', hsome⟩ : ∃ value', s'.initialValue isFinal' ty d' = .ok value' ∧
      (value.isSome = true → value'.isSome = true) := by
    rcases hd.value with heq | ⟨-, l, hl, haccepts⟩
    · rcases initialValue_eq_ok_iff.1 hvalue with
        ⟨hnone, hfalse, rfl⟩ | ⟨operand, text, ho, htext, rfl⟩
      · have hfalse' : isFinal' = false := by simpa [hfalse] using hfinal
        exact ⟨none, initialValue_eq_ok_iff.2 (.inl ⟨heq.trans hnone, hfalse', rfl⟩), id⟩
      · obtain ⟨text', htext'⟩ := h.valueFor htext
        exact ⟨some text',
          initialValue_eq_ok_iff.2 (.inr ⟨operand, text', heq.trans ho, htext', rfl⟩),
          fun _ => rfl⟩
    · exact ⟨some l.text, initialValue_eq_ok_iff.2 (.inr ⟨.literal l, l.text, hl,
        valueFor_literal_eq_ok_iff.2 ⟨haccepts, rfl⟩, rfl⟩), fun _ => rfl⟩
  exact ⟨_, declareItem_eq_ok_iff.2 ⟨hnew', value', hvalue', rfl⟩,
    h.push ⟨hd.name, rfl, hsome, hfinal⟩⟩

theorem carries_declareItems {isFinal isFinal' : Bool} (hfinal : isFinal' = true → isFinal = true)
    {ty : Ty} {items items' : List Declarator}
    (h : List.Forall₂ (Declarator.Freer ty) items items') :
    Carries Scopes.Freer (declareItems isFinal ty items) (declareItems isFinal' ty items') := by
  induction h with
  | nil => exact .pure ()
  | cons hd _ ih => exact .bind (.update fun _ _ _ hs => hs.declareItem hfinal hd) fun _ => ih

/-! ## Walks -/

/-- **What is legal in a body stays legal** where more variables have a value
    and fewer are final. -/
theorem simulation_freer (methods : MethodTable) :
    Simulation methods methods fun _ => Scopes.Freer where
  enter kind h := h.enter kind
  leave h := h.leave
  define {n s s' t v} h hdef := by
    obtain ⟨hnew, rfl⟩ := Scopes.define_eq_ok_iff.1 hdef
    have hnew' := h.current.get?_eq_none Variable.Freer.name hnew
    exact ⟨_, Scopes.define_eq_ok_iff.2 ⟨hnew', rfl⟩, h.push (.refl v)⟩
  declareItem h hdecl := h.declareItem id (.refl _ _) hdecl
  assign h hassign := by
    obtain ⟨v, value, hfinal, hvalue, hset⟩ := Scopes.assign_eq_ok_iff.1 hassign
    obtain ⟨value', hvalue'⟩ := h.valueFor hvalue
    obtain ⟨v', t', hfreer, hset', ht⟩ := h.sets Variable.Freer.name hset value'
    have hfinal' : v'.isFinal = false := by
      refine Bool.eq_false_iff.2 fun hf => ?_
      rw [hfreer.isFinal hf] at hfinal
      cases hfinal
    rw [← hfreer.ty] at hvalue'
    exact ⟨t', Scopes.assign_eq_ok_iff.2 ⟨v', value', hfinal', hvalue', hset'⟩, ht (hfreer.set _ _)⟩
  call h hcall := MethodTable.checkCall_of_valueFor id h.valueFor hcall
  condition h hcond := Condition.check_of_isTerm h.isTerm hcond

/-! ## Programs -/

theorem Declaration.Freer.refl (d : Declaration) : d.Freer d :=
  ⟨rfl, id, List.forall₂_same.2 fun item _ => .refl d.ty item⟩

theorem carries_globalStatement {text text' : String} {d d' : Declaration}
    (ht : Statement.ofText? text = some (.declaration d))
    (ht' : Statement.ofText? text' = some (.declaration d')) (h : d.Freer d') (line : Nat) :
    Carries Scopes.Freer (globalStatement line text) (globalStatement line text') := by
  rw [globalStatement_declaration ht, globalStatement_declaration ht', h.ty]
  exact (carries_declareItems h.isFinal h.items).atLine line

namespace Program

theorem carries_introduce (p : Program) (count : Nat) (methods : MethodTable) :
    Carries Scopes.Freer (p.introduce count methods) (p.introduce count methods) := by
  induction p generalizing count methods with
  | nil => exact .pure methods
  | cons part parts ih =>
    cases part with
    | trivia line => exact ih (count + 1) methods
    | declaration line =>
      refine .bind ?_ fun _ => ih (count + 1) methods
      unfold globalStatement
      split
      · rename_i d _
        have hdeclare : Carries Scopes.Freer (declare d) (declare d) :=
          .bind (carries_declareItems id (Declaration.Freer.refl d).items) fun _ => .pure _
        exact (hdeclare.atLine (count + 1)).discard
      · exact .fail _ _ _
    | method header body close =>
      -- the scopes have no part in it
      refine .bind ?_ fun methods' => ih (count + body.size + 2) methods'
      unfold globalBlock
      split
      · exact .fail _ _ _
      · split
        · exact .pure _
        · exact .fail _ _ _

theorem carries_check (p q : Program) (line line' : TextOf [.statement]) {d d' : Declaration}
    (hline : Statement.ofText? line.text = some (.declaration d))
    (hline' : Statement.ofText? line'.text = some (.declaration d')) (h : d.Freer d') :
    Carries Scopes.Freer (check (p ++ .declaration line :: q))
      (check (p ++ .declaration line' :: q)) := by
  have hbodies : bodies (p ++ .declaration line' :: q) = bodies (p ++ .declaration line :: q) := by
    simp only [bodies_append, bodies]
  have hlength : (lines (p ++ .declaration line' :: q)).length =
      (lines (p ++ .declaration line :: q)).length := by
    simp only [lines_append, lines_cons, Part.lines, List.length_append, List.length_singleton]
  unfold check
  rw [hbodies, hlength]
  refine .bind ?_ fun methods => .bind ((simulation_freer methods).checkBodies _ 0) fun _ => ?_
  · rw [introduce_append, introduce_append]
    refine .bind (p.carries_introduce 0 .empty) fun methods => ?_
    exact .bind (carries_globalStatement hline hline' h _) fun _ => q.carries_introduce _ methods
  · rintro s s' hs summary t ⟨⟩
    refine ⟨s', ?_, hs⟩
    rw [hs.global.vars.length_eq]
    rfl

/-- A global declaration of an accepted program can be made freer. -/
theorem verdict_of_freer (p q : Program) (line line' : TextOf [.statement]) {d d' : Declaration}
    (hline : Statement.ofText? line.text = some (.declaration d))
    (hline' : Statement.ofText? line'.text = some (.declaration d')) (h : d.Freer d')
    {summary : Summary} (hp : verdict (p ++ .declaration line :: q) = .ok summary) :
    verdict (p ++ .declaration line' :: q) = .ok summary := by
  unfold verdict at hp ⊢
  cases hcheck : check (p ++ .declaration line :: q) .initial with
  | error v s =>
    rw [hcheck] at hp
    cases hp
  | ok summary' s =>
    rw [hcheck] at hp
    cases hp
    obtain ⟨t, hcheck', -⟩ := p.carries_check q line line' hline hline' h .initial hcheck
    rw [hcheck']

end Program

/-- An accepted program is a program before and a program after each of its
    global statements. -/
theorem exists_programs_of_checkLines {before after : List String} {text : String}
    {summary : Summary}
    (hbefore : closings before = openings before) (ht : LineKind.ofText? text = some .statement)
    (h : checkLines (before ++ text :: after) = .ok summary) :
    ∃ p q : Program, p.lines = before ∧ q.lines = after := by
  cases hsurvey : surveyAll (before ++ text :: after) .initial with
  | error v s =>
    rw [checkLines_of_surveyAll_eq_error hsurvey] at h
    cases h
  | ok found g =>
    obtain ⟨sw, hsw, -, -⟩ := surveyAll_eq_ok_iff.1 hsurvey
    obtain ⟨a, s, -, ha, -, -⟩ := sweepAll_append_eq_ok_iff.1 hsw
    obtain ⟨p, rfl⟩ := exists_program_of_survey
      (surveyAll_eq_ok_iff.2 ⟨a, ha, depth_of_sweepAll hbefore ha, rfl⟩)
    rw [surveyAll, survey_program] at hsurvey
    obtain ⟨methods, t, -, hsurvey⟩ := bind_eq_ok_iff.1 hsurvey
    obtain ⟨found', t', hsurvey, -⟩ := bind_eq_ok_iff.1 hsurvey
    obtain ⟨kind, progress, t'', rest, hkind, hline, hafter, -⟩ := survey_cons_eq_ok_iff.1 hsurvey
    obtain rfl : .statement = kind := Option.some.inj (ht.symm.trans hkind)
    cases hline with
    | trivia hkind => simp at hkind
    | declaration =>
      obtain ⟨q, hq⟩ := exists_program_of_survey hafter
      exact ⟨p, q, rfl, hq⟩

/-- **Values and freedom to assign do no harm.** From scopes of the same form in
    which more variables have a value and fewer are final, the walk through a
    method succeeds where it did before, and ends in scopes that are related in
    the same way. And an accepted program stays accepted, with the same counts,
    where a global declaration gives initial values to variables that had none,
    or is no longer final. -/
theorem walkMethod_and_checkLines_of_freer :
    (∀ (found : Survey) (m : Method) (s s' t : Scopes), s.Freer s' →
      walkMethod found m s = .ok () t →
        ∃ t', walkMethod found m s' = .ok () t' ∧ t.Freer t') ∧
    ∀ (before after : List String) (text text' : String) (d d' : Declaration) (summary : Summary),
      closings before = openings before → Statement.ofText? text = some (.declaration d) →
      Statement.ofText? text' = some (.declaration d') → d.Freer d' →
      checkLines (before ++ text :: after) = .ok summary →
        checkLines (before ++ text' :: after) = .ok summary := by
  constructor
  · intro found m s s' t hs hwalk
    exact (simulation_freer found.methods).composed (.walkMethod found m) hs hwalk
  · intro before after text text' d d' summary hbefore ht ht' hd h
    have hkind := LineKind.ofText?_of_statement ht
    have hkind' := LineKind.ofText?_of_statement ht'
    obtain ⟨p, q, rfl, rfl⟩ := exists_programs_of_checkLines hbefore hkind h
    have hlines : ∀ line : TextOf [.statement], p.lines ++ line.text :: q.lines =
        Program.lines (p ++ .declaration line :: q) := by
      intro line
      rw [Program.lines_append, Program.lines_cons]
      rfl
    rw [hlines ⟨text, .statement, by simp, hkind⟩, checkLines_lines] at h
    rw [hlines ⟨text', .statement, by simp, hkind'⟩, checkLines_lines]
    exact p.verdict_of_freer q ⟨text, .statement, by simp, hkind⟩
      ⟨text', .statement, by simp, hkind'⟩ ht ht' hd h

/-- A method that assigns a global variable and uses another, with both freed. -/
theorem walk_and_check_of_freed_globals :
    (∃ t', walkMethod ⟨[⟨1, "void f() \x7b", 0, .blockOpen⟩, ⟨2, "b = c;", 1, .statement⟩,
        ⟨3, "return;", 1, .returnLine⟩, ⟨4, "\x7d", 1, .blockClose⟩], ⟨[⟨"f", [], 1⟩]⟩⟩ ⟨"f", [], 1⟩
        ⟨⟨.global, [⟨"b", .int, some "7", false⟩, ⟨"c", .int, some "2", false⟩]⟩, []⟩ = .ok () t' ∧
      Scopes.Freer
        ⟨⟨.global, [⟨"b", .int, some "2", false⟩, ⟨"c", .int, some "2", true⟩]⟩, []⟩ t') ∧
    checkLines ["final int c = 2;", "int a = 5, b;", "void f() \x7b", "b = c;", "return;", "\x7d"] =
      .ok ⟨6, 1, 3⟩ ∧
    checkLines ["int c = 2;", "int a, b;", "void f() \x7b", "b = c;", "return;", "\x7d"] =
      .ok ⟨6, 1, 3⟩ := by
  obtain ⟨hwalk, hcheck⟩ := walkMethod_and_checkLines_of_freer
  have haccepted : checkLines ["final int c = 2;", "int a, b;", "void f() \x7b", "b = c;",
      "return;", "\x7d"] = .ok ⟨6, 1, 3⟩ := by
    decide +kernel
  refine ⟨hwalk _ _ ⟨⟨.global, [⟨"b", .int, none, false⟩, ⟨"c", .int, some "2", true⟩]⟩, []⟩ _ _
    (by decide) (by decide +kernel), ?_, ?_⟩
  · exact hcheck ["final int c = 2;"] ["void f() \x7b", "b = c;", "return;", "\x7d"] "int a, b;"
      "int a = 5, b;" ⟨false, .int, [⟨"a", none⟩, ⟨"b", none⟩]⟩
      ⟨false, .int, [⟨"a", some (.literal (.int "5"))⟩, ⟨"b", none⟩]⟩ _ (by decide +kernel)
      (by decide +kernel) (by decide +kernel)
      ⟨rfl, id, .cons ⟨rfl, .inr ⟨rfl, .int "5", rfl, rfl⟩⟩ (.cons (.refl _ _) .nil)⟩ haccepted
  · exact hcheck [] ["int a, b;", "void f() \x7b", "b = c;", "return;", "\x7d"] "final int c = 2;"
      "int c = 2;" ⟨true, .int, [⟨"c", some (.literal (.int "2"))⟩]⟩
      ⟨false, .int, [⟨"c", some (.literal (.int "2"))⟩]⟩ _ rfl (by decide +kernel)
      (by decide +kernel)
      ⟨rfl, nofun, .cons (.refl _ _) .nil⟩ haccepted

end LineCheck
