import LineCheck.Proofs.Sessions
import LineCheck.Proofs.Sweep

/-!
What a check counts, and what the walk through a method leaves.

The survey declares a variable for every declarator outside all methods
(`names_of_survey`). A walk opens a scope for its method and one for every block
in it, and closes them all (`becomeAll_walk`): of the scopes around the method,
only values of variables that are not final can be other ones after it. So the
walks leave the number of global variables as it is, and the counts of a legal
program can be read off its lines (`counts_and_globals`).
-/

namespace LineCheck

/-! ## New variables -/

section

variable {s s' : Scopes}

theorem distinct_of_declare {d : Declaration} {n : Nat} (h : declare d s = .ok n s')
    (hs : s.Distinct) : s'.Distinct := by
  have hgrows := Scopes.Grows.declareItems d.isFinal d.ty d.items s
  rw [← scopesAfter_declare, h] at hgrows
  exact hgrows.distinct hs

theorem outer_of_receive {line : Nat} {params : List Variable} {u : Unit}
    (h : receive line params s = .ok u s') : s'.outer = s.outer := by
  induction params generalizing s with
  | nil =>
    cases h
    rfl
  | cons param params ih =>
    obtain ⟨u', t, hdef, ht⟩ := bind_eq_ok_iff.1 h
    obtain ⟨-, rfl⟩ :=
      Scopes.define_eq_ok_iff.1 (Resolving.update_eq_ok_iff.1 (atLine_eq_ok_iff.1 hdef))
    rw [ih ht]
    rfl

end

/-! ## The scopes around a walk -/

/-- The same scopes with the same variables, of which some that are not final
    may have got values. -/
def BecomeAll (scopes scopes' : List Scope) : Prop :=
  List.Forall₂ (Scope.Pointwise Variable.Becomes) scopes scopes'

theorem BecomeAll.refl (scopes : List Scope) : BecomeAll scopes scopes :=
  List.forall₂_same.2 fun scope _ => .refl (fun _ => .same) scope

theorem BecomeAll.trans {scopes scopes' scopes'' : List Scope} (h : BecomeAll scopes scopes')
    (h' : BecomeAll scopes' scopes'') : BecomeAll scopes scopes'' :=
  forall₂_trans (fun _ _ _ hab hbc => hab.trans (fun _ _ _ => Variable.Becomes.trans) hbc) h h'

section

variable {methods : MethodTable} {s s' : Scopes} {u : Unit}

theorem becomeAll_of_sets {name value : String} {v : Variable} (hv : v.isFinal = false)
    (h : s.Sets name value v s') : BecomeAll s.toList s'.toList := by
  obtain ⟨inner, kind, before, after, outer, -, -, -, hs, hs'⟩ := h
  have hvars : List.Forall₂ Variable.Becomes (before ++ v :: after)
      (before ++ { v with value := some value } :: after) :=
    forall₂_append_cons (fun _ => .same) (.assigned hv value) before after
  rw [hs, hs']
  exact forall₂_append_cons (.refl fun _ => .same) ⟨rfl, hvars⟩ inner outer

/-- A statement declares in the current scope, and assigns what is not final. -/
theorem becomeAll_checkStatement {line : Line} (h : checkStatement methods line s = .ok u s') :
    BecomeAll s.outer s'.outer := by
  unfold checkStatement at h
  rcases hst : Statement.ofText? line.text with _ | d | a | c
  · rw [hst] at h
    cases h
  · rw [hst] at h
    obtain ⟨n, hd⟩ := discard_eq_ok_iff.1 (atLine_eq_ok_iff.1 h)
    rw [(names_of_declare hd).1]
    exact .refl s.outer
  · rw [hst] at h
    obtain ⟨v, value, hfinal, -, hset⟩ :=
      Scopes.assign_eq_ok_iff.1 (Resolving.update_eq_ok_iff.1 (atLine_eq_ok_iff.1 h))
    exact (List.forall₂_cons.1 (becomeAll_of_sets hfinal hset)).2
  · rw [hst] at h
    obtain ⟨-, rfl⟩ := Resolving.require_eq_ok_iff.1 (atLine_eq_ok_iff.1 h)
    exact .refl s'.outer

theorem eq_enter_of_checkBlock {line : Line} (h : checkBlock line s = .ok u s') :
    s' = s.enter .block := by
  unfold checkBlock at h
  cases hheader : BlockHeader.ofText? line.text with
  | none =>
    rw [hheader] at h
    cases h
  | some header =>
    rw [hheader] at h
    obtain ⟨u', t, ht, hmodify⟩ := bind_eq_ok_iff.1 h
    obtain ⟨-, rfl⟩ := Resolving.require_eq_ok_iff.1 (atLine_eq_ok_iff.1 ht)
    cases hmodify
    rfl

/-- **A walk closes the scopes that it counts, and leaves the others.** By
    induction on the lines, which end no earlier than the method: each brace
    closes one of the `n` scopes, and a header opens another. -/
theorem becomeAll_walk {name : String} {lines : List Line} {n : Nat} {returned : Bool} (hn : 0 < n)
    (hlines : Nested n lines) (hs : n ≤ s.currentId)
    (h : walk methods name lines n returned s = .ok u s') :
    BecomeAll (s.toList.drop n) s'.toList := by
  induction lines generalizing n returned s with
  | nil =>
    cases hlines
    exact absurd hn (Nat.lt_irrefl 0)
  | cons line lines ih =>
    rw [walk] at h
    cases hk : line.kind with
    | comment | blank | returnLine =>
      rw [hk] at h
      exact ih hn (hlines.of_plain (by simp [hk]) (by simp [hk])) hs h
    | statement =>
      rw [hk] at h
      obtain ⟨u', t, ht, hrest⟩ := bind_eq_ok_iff.1 h
      -- the current scope may grow, but it is one of those that the walk closes
      have houter := becomeAll_checkStatement ht
      have hid : s.currentId = t.currentId := houter.length_eq
      have hdrop : BecomeAll (s.toList.drop n) (t.toList.drop n) := by
        obtain ⟨k, rfl⟩ : ∃ k, n = k + 1 := ⟨n - 1, by omega⟩
        exact List.forall₂_drop k houter
      exact hdrop.trans (ih hn (hlines.of_plain (by simp [hk]) (by simp [hk])) (by omega) hrest)
    | blockOpen =>
      rw [hk] at h
      obtain ⟨u', t, ht, hrest⟩ := bind_eq_ok_iff.1 h
      obtain rfl := eq_enter_of_checkBlock ht
      have hopen : n + 1 ≤ (s.enter .block).currentId := by simpa using hs
      have hinner := ih (Nat.succ_pos n) (hlines.of_opens hk) hopen hrest
      rwa [Scopes.toList_enter, List.drop_succ_cons] at hinner
    | blockClose =>
      rw [hk] at h
      have hleave := Scopes.toList_leave (Nat.lt_of_lt_of_le hn hs)
      obtain ⟨k, rfl⟩ : ∃ k, n = k + 1 := ⟨n - 1, by omega⟩
      dsimp only at h
      split at h
      · cases h
      · obtain ⟨u', t, ht, hrest⟩ := bind_eq_ok_iff.1 h
        cases ht
        -- the brace closes the method itself, or a block of it
        by_cases hlast : k = 0
        · subst hlast
          cases hrest
          rw [hleave]
          exact .refl _
        · rw [if_neg (by omega)] at hrest
          have hinner := ih (by omega) (hlines.of_closes hk) (by simp; omega) hrest
          rwa [hleave, List.drop_drop, Nat.add_comm 1 k] at hinner

/-- **Locals do not leak.** The walk through a method leaves the scopes around it. -/
theorem pointwise_walkMethod {texts : List String} {found : Survey}
    (hfound : SurveySpec 0 ⟨0, .empty⟩ texts found) {m : Method} (hm : m ∈ found.methods.toList)
    (h : walkMethod found m s = .ok u s') : s.Pointwise Variable.Becomes s' := by
  obtain ⟨u₁, t₁, henter, h⟩ := bind_eq_ok_iff.1 h
  obtain ⟨u₂, t₂, hreceive, hwalk⟩ := bind_eq_ok_iff.1 h
  cases henter
  have houter : t₂.outer = s.toList := outer_of_receive hreceive
  have hid : 1 ≤ t₂.currentId := by
    rw [Scopes.currentId, houter]
    exact Nat.succ_pos _
  have hframe := becomeAll_walk Nat.one_pos (hfound.nested_drop hm) hid hwalk
  rw [Scopes.toList, List.drop_one, List.tail_cons, houter] at hframe
  exact hframe

theorem pointwise_walkMethods {texts : List String} {found : Survey}
    (hfound : SurveySpec 0 ⟨0, .empty⟩ texts found) {ms : List Method}
    (hms : ∀ m ∈ ms, m ∈ found.methods.toList) (h : walkMethods found ms s = .ok u s') :
    s.Pointwise Variable.Becomes s' := by
  induction ms generalizing s with
  | nil =>
    cases h
    exact BecomeAll.refl _
  | cons m ms ih =>
    rw [List.forall_mem_cons] at hms
    obtain ⟨u', t, ht, hrest⟩ := bind_eq_ok_iff.1 h
    exact BecomeAll.trans (pointwise_walkMethod hfound hms.1 ht) (ih hms.2 hrest)

end

/-! ## Outside all blocks -/

/-- The texts of a kind that stand outside all blocks: as many blocks are opened
    as are closed before them. -/
def outside (kind : LineKind) (texts : List String) : List String :=
  (texts.zipIdx.filter fun (text, k) => LineKind.ofText? text == some kind &&
    openings (texts.take k) == closings (texts.take k)).map Prod.fst

/-- Whether a line is of a kind and stands outside all blocks. -/
def Line.isOutside (kind : LineKind) (line : Line) : Bool :=
  line.kind == kind && line.depth == 0

theorem map_fst_filter_zipIdx {α : Type} (P : α → Bool) (l : List α) :
    (l.zipIdx.filter (P ∘ Prod.fst)).map Prod.fst = l.filter P := by
  rw [← List.filter_map, List.zipIdx_map_fst]

/-- The survey finds which texts stand outside all blocks, and where. -/
theorem SurveySpec.filter_outside {texts : List String} {found : Survey}
    (h : SurveySpec 0 ⟨0, .empty⟩ texts found) (kind : LineKind) :
    (texts.zipIdx.filter fun (text, k) => LineKind.ofText? text == some kind &&
      openings (texts.take k) == closings (texts.take k)) =
      (found.lines.zipIdx.filter (Line.isOutside kind ∘ Prod.fst)).map (Prod.map Line.text id) := by
  have hzip : texts.zipIdx = found.lines.zipIdx.map (Prod.map Line.text id) := by
    rw [← h.text, List.zipIdx_map]
  rw [hzip, List.filter_map]
  congr 1
  refine List.filter_congr ?_
  rintro ⟨line, k⟩ hmem
  have hk : found.lines[k]? = some line := List.mem_zipIdx_iff_getElem?.1 hmem
  have hkind : LineKind.ofText? line.text = some line.kind := h.kind line (List.mem_of_getElem? hk)
  have hzero : (openings (texts.take k) == closings (texts.take k)) = (line.depth == 0) := by
    have hdepth := h.nested.depth_add_closes hk
    rw [← h.countP_take, ← h.countP_take, ← openings, ← closings] at hdepth
    rw [Bool.eq_iff_iff, beq_iff_eq, beq_iff_eq]
    dsimp only at hdepth
    omega
  simp only [Function.comp_apply, Prod.map, id, hkind, hzero, Line.isOutside]
  rfl

/-- The survey finds the lines outside all blocks. -/
theorem SurveySpec.outside_eq {texts : List String} {found : Survey}
    (h : SurveySpec 0 ⟨0, .empty⟩ texts found) (kind : LineKind) :
    outside kind texts = (found.lines.filter (Line.isOutside kind)).map Line.text := by
  rw [outside, h.filter_outside, ← map_fst_filter_zipIdx (Line.isOutside kind) found.lines,
    List.map_map, List.map_map]
  rfl

/-! ## Global variables -/

/-- The variables that a text declares. -/
def declarators (text : String) : List Declarator :=
  match Statement.ofText? text with
  | some (.declaration d) => d.items
  | _ => []

/-- Of the lines of a program, only a statement outside all blocks changes the
    scopes. -/
theorem Surveyed.declares_or_same {number : Nat} {text : String} {methods : MethodTable}
    {s s' : Scopes} {kind : LineKind} {depth : Nat} {p : Progress}
    (h : Surveyed number text methods s kind depth p s') :
    (∃ d n, Line.isOutside .statement ⟨number, text, depth, kind⟩ = true ∧
      Statement.ofText? text = some (.declaration d) ∧ declare d s = .ok n s') ∨
    Line.isOutside .statement ⟨number, text, depth, kind⟩ = false ∧ s' = s := by
  cases h with
  | declaration ht hd => exact .inl ⟨_, _, rfl, ht, hd⟩
  | trivia hk | inside hk => rcases hk with rfl | rfl <;> exact .inr ⟨rfl, rfl⟩
  | method | opens | closes => exact .inr ⟨rfl, rfl⟩

/-- **The survey declares what stands outside all blocks**, and every statement
    there is a declaration. -/
theorem names_of_survey {count : Nat} {p : Progress} {texts : List String} {s s' : Scopes}
    {found : Survey} (h : survey count p texts s = .ok found s') (hs : s.Distinct) :
    s'.Distinct ∧ s'.outer = s.outer ∧
    s'.current.vars.map Variable.name = s.current.vars.map Variable.name ++
      ((found.lines.filter (Line.isOutside .statement)).flatMap
        fun line => declarators line.text).map Declarator.name ∧
    ∀ line ∈ found.lines.filter (Line.isOutside .statement),
      ∃ d, Statement.ofText? line.text = some (.declaration d) := by
  induction texts generalizing count p s found with
  | nil =>
    obtain ⟨-, rfl, rfl⟩ := survey_nil_eq_ok_iff.1 h
    exact ⟨hs, rfl, by simp, by simp⟩
  | cons text texts ih =>
    obtain ⟨kind, p', t, rest, -, hline, hrest, rfl⟩ := survey_cons_eq_ok_iff.1 h
    rcases hline.declares_or_same with ⟨d, n, hglobal, ht, hd⟩ | ⟨hnot, rfl⟩
    · obtain ⟨houter, hnames⟩ := names_of_declare hd
      obtain ⟨hdistinct, houter', hnames', hrest'⟩ := ih hrest (distinct_of_declare hd hs)
      have hitems : declarators text = d.items := by rw [declarators, ht]
      rw [List.filter_cons_of_pos hglobal]
      refine ⟨hdistinct, houter'.trans houter, ?_, List.forall_mem_cons.2 ⟨⟨d, ht⟩, hrest'⟩⟩
      rw [hnames', hnames, List.flatMap_cons, List.map_append, hitems, List.append_assoc]
    · rw [List.filter_cons_of_neg (by simp [hnot])]
      exact ih hrest hs

/-! ## Counts -/

/-- The methods are the lines outside all blocks that open one. -/
theorem SurveySpec.size_methods {texts : List String} {found : Survey}
    (h : SurveySpec 0 ⟨0, .empty⟩ texts found) :
    found.methods.size = (outside .blockOpen texts).length := by
  have hlength := congrArg List.length h.map_line
  rw [headers, List.length_map, List.length_map] at hlength
  rw [h.outside_eq, List.length_map]
  exact hlength

/-- The global scope after the survey of a whole program. -/
theorem names_of_surveyAll {texts : List String} {found : Survey} {g : Scopes}
    (h : surveyAll texts .initial = .ok found g) :
    (g.global.vars.map Variable.name).Nodup ∧
    g.global.vars.map Variable.name =
      ((outside .statement texts).flatMap declarators).map Declarator.name ∧
    ∀ text ∈ outside .statement texts, ∃ d, Statement.ofText? text = some (.declaration d) := by
  obtain ⟨hdistinct, houter, hnames, hdeclares⟩ := names_of_survey h (distinct_session [])
  obtain ⟨scope, outer⟩ := g
  obtain rfl : outer = [] := houter
  rw [(surveySpec h).outside_eq, List.flatMap_map]
  refine ⟨hdistinct scope List.mem_cons_self, hnames, ?_⟩
  intro text htext
  obtain ⟨line, hline, rfl⟩ := List.mem_map.1 htext
  exact hdeclares line hline

/-- **The counts of a legal program, and what its methods leave.** The lines are
    counted, the lines outside all blocks that open a block, which are the
    methods, and the declarators outside all blocks, which have distinct names.
    The walk through a method that starts where only the global scope is open
    ends so, with the same global variables: one that is final is unchanged, and
    another one may have got a value. -/
theorem counts_and_globals (texts : List String) :
    (∀ summary, checkLines texts = .ok summary →
      summary.lines = texts.length ∧
      summary.methods = (outside .blockOpen texts).length ∧
      summary.globals = ((outside .statement texts).flatMap declarators).length ∧
      (((outside .statement texts).flatMap declarators).map Declarator.name).Nodup ∧
      ∀ text ∈ outside .statement texts, ∃ d, Statement.ofText? text = some (.declaration d)) ∧
    ∀ found g m scope s', surveyAll texts .initial = .ok found g → m ∈ found.methods.toList →
      walkMethod found m ⟨scope, []⟩ = .ok () s' →
        ∃ scope', s' = ⟨scope', []⟩ ∧ scope.Pointwise Variable.Becomes scope' := by
  constructor
  · intro summary h
    obtain ⟨found, g, t, hfound, hwalk, rfl⟩ := exists_of_checkLines_eq_ok h
    obtain ⟨hnodup, hnames, hdeclares⟩ := names_of_surveyAll hfound
    have hglobal : g.global.Pointwise Variable.Becomes t.global :=
      (pointwise_walkMethods (surveySpec hfound) (fun _ hm => hm) hwalk).global
    refine ⟨rfl, (surveySpec hfound).size_methods, ?_, hnames ▸ hnodup, hdeclares⟩
    calc t.global.vars.length
      _ = (g.global.vars.map Variable.name).length := by
        rw [List.length_map, hglobal.vars.length_eq]
      _ = ((outside .statement texts).flatMap declarators).length := by rw [hnames, List.length_map]
  · intro found g m scope s' hfound hm hwalk
    obtain ⟨scope', outer⟩ := s'
    obtain ⟨hscope, houter⟩ :=
      List.forall₂_cons.1 (pointwise_walkMethod (surveySpec hfound) hm hwalk)
    cases houter
    exact ⟨scope', rfl, hscope⟩

/-- A method declares a variable that hides a global one, and gives a value to
    another one. -/
theorem counts_and_globals_of_hidden_global :
    (outside .blockOpen ["int a, b;", "void f() \x7b", "int a = 1;", "b = a;", "return;",
      "\x7d"]).length = 1 ∧
    ((outside .statement ["int a, b;", "void f() \x7b", "int a = 1;", "b = a;", "return;",
      "\x7d"]).flatMap declarators).length = 2 ∧
    (⟨.global, [⟨"a", .int, none, false⟩, ⟨"b", .int, none, false⟩]⟩ : Scope).Pointwise
      Variable.Becomes
      ⟨.global, [⟨"a", .int, none, false⟩, ⟨"b", .int, some "1", false⟩]⟩ := by
  obtain ⟨hcounts, hglobals⟩ := counts_and_globals
    ["int a, b;", "void f() \x7b", "int a = 1;", "b = a;", "return;", "\x7d"]
  obtain ⟨-, hmethods, hdeclared, -⟩ := hcounts ⟨6, 1, 2⟩ (by decide +kernel)
  obtain ⟨scope', hscope', hbecomes⟩ := hglobals
    ⟨[⟨1, "int a, b;", 0, .statement⟩, ⟨2, "void f() \x7b", 0, .blockOpen⟩,
      ⟨3, "int a = 1;", 1, .statement⟩, ⟨4, "b = a;", 1, .statement⟩,
      ⟨5, "return;", 1, .returnLine⟩, ⟨6, "\x7d", 1, .blockClose⟩], ⟨[⟨"f", [], 2⟩]⟩⟩
    ⟨⟨.global, [⟨"a", .int, none, false⟩, ⟨"b", .int, none, false⟩]⟩, []⟩ ⟨"f", [], 2⟩
    ⟨.global, [⟨"a", .int, none, false⟩, ⟨"b", .int, none, false⟩]⟩
    ⟨⟨.global, [⟨"a", .int, none, false⟩, ⟨"b", .int, some "1", false⟩]⟩, []⟩
    (by decide +kernel) (by decide) (by decide +kernel)
  cases hscope'
  exact ⟨hmethods.symm, hdeclared.symm, hbecomes⟩

end LineCheck
