import LineCheck.Proofs.Nesting
import LineCheck.Proofs.Renumbering

/-!
Exchanging a global declaration and the method after it.

The survey of a declaration changes the scopes and not the methods, and that of
a method changes the methods and not the scopes (`IsMethod.sweep`). So the two
can be exchanged: in both orders the sweep is made of the same parts
(`sweepAll_declaration_first`, `sweepAll_method_first`), and afterwards each
method finds its own lines under new numbers (`Parts.moved`).
-/

namespace LineCheck

/-! ## Moved lines -/

/-- The new number of a line, where the line after the first `n` goes behind the
    `k` lines that follow it. -/
def moveBehind (n k line : Nat) : Nat :=
  if line ≤ n then line
  else if line = n + 1 then n + k + 1
  else if line ≤ n + k + 1 then line - 1
  else line

section MoveBehind

variable {n k line : Nat}

theorem moveBehind_of_le (h : line ≤ n) : moveBehind n k line = line :=
  if_pos h

theorem moveBehind_self : moveBehind n k (n + 1) = n + k + 1 := by
  rw [moveBehind, if_neg (by omega), if_pos rfl]

theorem moveBehind_of_passed (h : n + 1 < line) (h' : line ≤ n + k + 1) :
    moveBehind n k line = line - 1 := by
  rw [moveBehind, if_neg (by omega), if_neg (by omega), if_pos h']

theorem moveBehind_of_lt (h : n + k + 1 < line) : moveBehind n k line = line := by
  rw [moveBehind, if_neg (by omega), if_neg (by omega), if_neg (by omega)]

end MoveBehind

/-! ## The survey of a method and of a declaration -/

/-- The lines of one method: they begin with a header, and the last of them is
    the first that leaves no block open. -/
structure IsMethod (m : List String) : Prop where
  header : ∃ first rest, m = first :: rest ∧ LineKind.ofText? first = some .blockOpen
  inside : ∀ k < m.length, 0 < k → closings (m.take k) < openings (m.take k)
  closed : closings m = openings m

/-- Only a statement outside all methods changes the scopes. -/
theorem Surveyed.scopes_eq {line : Nat} {text : String} {methods : MethodTable} {s t : Scopes}
    {kind : LineKind} {depth : Nat} {p : Progress} (h : Surveyed line text methods s kind depth p t)
    (hne : kind ≠ .statement ∨ 0 < depth) :
    t = s ∧ ∀ s', Surveyed line text methods s' kind depth p s' := by
  cases h with
  | trivia hk => exact ⟨rfl, fun _ => .trivia hk⟩
  | inside hk => exact ⟨rfl, fun _ => .inside hk⟩
  | declaration => simp at hne
  | method ht hr => exact ⟨rfl, fun _ => .method ht hr⟩
  | opens => exact ⟨rfl, fun _ => .opens⟩
  | closes => exact ⟨rfl, fun _ => .closes⟩

/-- A sweep that meets no statement outside all methods neither reads nor
    changes the scopes. -/
theorem sweep_scopes_eq {texts : List String} {count : Nat} {p : Progress} {s t : Scopes}
    {sw : Sweep}
    (hne : ∀ k text, texts[k]? = some text → LineKind.ofText? text ≠ some .statement ∨
      closings (texts.take k) < p.depth + openings (texts.take k))
    (h : sweep count p texts s = .ok sw t) : t = s ∧ ∀ s', sweep count p texts s' = .ok sw s' := by
  induction texts generalizing count p s sw with
  | nil =>
    obtain ⟨rfl, rfl⟩ := sweep_nil_eq_ok_iff.1 h
    exact ⟨rfl, fun s' => sweep_nil_eq_ok_iff.2 ⟨rfl, rfl⟩⟩
  | cons text texts ih =>
    obtain ⟨kind, p', t', rest, hk, hline, hrest, rfl⟩ := sweep_cons_eq_ok_iff.1 h
    have hfirst : kind ≠ .statement ∨ 0 < p.depth := by
      rcases hne 0 text rfl with hkind | hdepth
      · left
        rintro rfl
        exact hkind hk
      · right
        exact hdepth
    obtain ⟨rfl, hany⟩ := hline.scopes_eq hfirst
    have hdepth := hline.depth_add_closings hk
    have hne' : ∀ k x, texts[k]? = some x → LineKind.ofText? x ≠ some .statement ∨
        closings (texts.take k) < p'.depth + openings (texts.take k) := by
      intro k x hx
      rcases hne (k + 1) x hx with hkind | hlater
      · exact .inl hkind
      · right
        rw [List.take_succ_cons, closings_cons, openings_cons] at hlater
        omega
    obtain ⟨rfl, hrests⟩ := ih hne' hrest
    exact ⟨rfl, fun s' => sweep_cons_eq_ok_iff.2 ⟨kind, p', s', rest, hk, hany s', hrests s', rfl⟩⟩

/-- The survey of a method neither reads nor changes the scopes. -/
theorem IsMethod.sweep {m : List String} (hm : IsMethod m) {count : Nat} {p : Progress}
    (hp : p.depth = 0) {s t : Scopes} {sw : Sweep} (h : sweep count p m s = .ok sw t) :
    t = s ∧ sw.after.depth = 0 ∧ ∀ s', LineCheck.sweep count p m s' = .ok sw s' := by
  have hne : ∀ k text, m[k]? = some text → LineKind.ofText? text ≠ some .statement ∨
      closings (m.take k) < p.depth + openings (m.take k) := by
    intro k text hk
    rcases Nat.eq_zero_or_pos k with rfl | hpos
    · left
      obtain ⟨first, rest, rfl, hfirst⟩ := hm.header
      obtain rfl : first = text := by simpa using hk
      simp [hfirst]
    · right
      have hlt : k < m.length := (List.getElem?_eq_some_iff.1 hk).1
      have := hm.inside k hlt hpos
      omega
  obtain ⟨hts, hany⟩ := sweep_scopes_eq hne h
  have hdepth := depth_of_sweep h
  have hclosed := hm.closed
  exact ⟨hts, by omega, hany⟩

/-- Outside all methods a statement has to be a declaration, which is carried
    out; how far the survey has come does not matter, and does not change. -/
theorem sweep_statement_eq_ok_iff {text : String} (ht : LineKind.ofText? text = some .statement)
    (count : Nat) {p : Progress} (hp : p.depth = 0) {s t : Scopes} {sw : Sweep} :
    sweep count p [text] s = .ok sw t ↔
      (∃ d n, Statement.ofText? text = some (.declaration d) ∧ declare d s = .ok n t) ∧
        sw = ⟨[⟨count + 1, text, 0, .statement⟩], p⟩ := by
  obtain ⟨depth, methods⟩ := p
  obtain rfl : depth = 0 := hp
  rw [sweep_cons_eq_ok_iff]
  constructor
  · rintro ⟨kind, p', t', rest, hk, hline, hrest, rfl⟩
    obtain ⟨rfl, rfl⟩ := sweep_nil_eq_ok_iff.1 hrest
    obtain rfl : .statement = kind := Option.some.inj (ht.symm.trans hk)
    cases hline with
    | trivia hkind => simp at hkind
    | declaration hst hd => exact ⟨⟨_, _, hst, hd⟩, rfl⟩
  · rintro ⟨⟨d, n, hst, hd⟩, rfl⟩
    exact ⟨.statement, _, t, ⟨[], ⟨0, methods⟩⟩, ht, .declaration hst hd,
      sweep_nil_eq_ok_iff.2 ⟨rfl, rfl⟩, rfl⟩

/-! ## Both orders -/

/-- The parts of the sweep of lines `p`, a declaration `d`, a method `m` and
    lines `s`, in this order of `d` and `m`. The method is surveyed in the
    scopes before the declaration. -/
structure Parts (p m s : List String) (d : String) (a b c e : Sweep) (sa sb g : Scopes) : Prop where
  before : sweepAll p .initial = .ok a sa
  depth : a.after.depth = 0
  declaration : sweep p.length a.after [d] sa = .ok b sb
  method : sweep (p.length + 1) a.after m sa = .ok c sa
  rest : sweep (p.length + m.length + 1) c.after s sb = .ok e g

theorem sweepAll_parts_eq_ok_iff {p q r s : List String} {sw : Sweep} {g : Scopes} :
    sweepAll (p ++ q ++ r ++ s) .initial = .ok sw g ↔
      ∃ a sa b sb c sc e, sweepAll p .initial = .ok a sa ∧ sweep p.length a.after q sa = .ok b sb ∧
        sweep (p.length + q.length) b.after r sb = .ok c sc ∧
        sweep (p.length + q.length + r.length) c.after s sc = .ok e g ∧
        sw = ⟨a.lines ++ b.lines ++ c.lines ++ e.lines, e.after⟩ := by
  rw [← List.length_append, ← List.length_append]
  constructor
  · intro h
    obtain ⟨abc, sc, e, habc, he, rfl⟩ := sweepAll_append_eq_ok_iff.1 h
    obtain ⟨ab, sb, c, hab, hc, rfl⟩ := sweepAll_append_eq_ok_iff.1 habc
    obtain ⟨a, sa, b, ha, hb, rfl⟩ := sweepAll_append_eq_ok_iff.1 hab
    exact ⟨a, sa, b, sb, c, sc, e, ha, hb, hc, he, rfl⟩
  · rintro ⟨a, sa, b, sb, c, sc, e, ha, hb, hc, he, rfl⟩
    have hab := sweepAll_append_eq_ok_iff.2 ⟨a, sa, b, ha, hb, rfl⟩
    have habc := sweepAll_append_eq_ok_iff.2 ⟨_, sb, c, hab, hc, rfl⟩
    exact sweepAll_append_eq_ok_iff.2 ⟨_, sc, e, habc, he, rfl⟩

section Orders

variable {p m s : List String} {d : String} (hd : LineKind.ofText? d = some .statement)
  (hp : closings p = openings p) (hm : IsMethod m)

include hd hp hm

theorem sweepAll_declaration_first {sw : Sweep} {g : Scopes} :
    sweepAll (p ++ [d] ++ m ++ s) .initial = .ok sw g ↔
      ∃ a b c e sa sb, Parts p m s d a b c e sa sb g ∧
        sw = ⟨a.lines ++ b.lines ++ c.lines ++ e.lines, e.after⟩ := by
  rw [sweepAll_parts_eq_ok_iff]
  have hcount : p.length + [d].length + m.length = p.length + m.length + 1 := by
    rw [List.length_singleton]
    omega
  rw [hcount]
  constructor
  · rintro ⟨a, sa, b, sb, c, sc, e, ha, hb, hc, he, rfl⟩
    have hdepth := depth_of_sweepAll hp ha
    obtain ⟨-, rfl⟩ := (sweep_statement_eq_ok_iff hd _ hdepth).1 hb
    obtain ⟨rfl, -, hany⟩ := hm.sweep hdepth hc
    exact ⟨a, _, c, e, sa, _, ⟨ha, hdepth, hb, hany sa, he⟩, rfl⟩
  · rintro ⟨a, b, c, e, sa, sb, h, rfl⟩
    obtain ⟨-, rfl⟩ := (sweep_statement_eq_ok_iff hd _ h.depth).1 h.declaration
    obtain ⟨-, -, hany⟩ := hm.sweep h.depth h.method
    exact ⟨a, sa, _, sb, c, sb, e, h.before, h.declaration, hany sb, h.rest, rfl⟩

theorem sweepAll_method_first {sw : Sweep} {g : Scopes} :
    sweepAll (p ++ m ++ [d] ++ s) .initial = .ok sw g ↔
      ∃ a b c e sa sb, Parts p m s d a b c e sa sb g ∧
        sw = Sweep.renumber (moveBehind p.length m.length)
          ⟨a.lines ++ c.lines ++ b.lines ++ e.lines, e.after⟩ := by
  rw [sweepAll_parts_eq_ok_iff, List.length_singleton]
  -- each part of the second order is the part of the first with new numbers
  have hbefore : ∀ {sa : Scopes} {a' : Sweep}, sweepAll p .initial = .ok a' sa ↔
      ∃ a, sweepAll p .initial = .ok a sa ∧ a' = a.renumber (moveBehind p.length m.length) :=
    sweep_renumber_eq_ok_iff (p := ⟨0, .empty⟩) fun j hj => moveBehind_of_le (by omega)
  have hmethod : ∀ {q : Progress} {sa t : Scopes} {c' : Sweep},
      sweep p.length (q.renumber (moveBehind p.length m.length)) m sa = .ok c' t ↔
        ∃ c, sweep (p.length + 1) q m sa = .ok c t ∧
          c' = c.renumber (moveBehind p.length m.length) := by
    refine sweep_renumber_eq_ok_iff fun j hj => ?_
    rw [moveBehind_of_passed (by omega) (by omega)]
    omega
  have hdeclaration : ∀ {q : Progress} {sa t : Scopes} {b' : Sweep},
      sweep (p.length + m.length) (q.renumber (moveBehind p.length m.length)) [d] sa = .ok b' t ↔
        ∃ b, sweep p.length q [d] sa = .ok b t ∧
          b' = b.renumber (moveBehind p.length m.length) := by
    refine sweep_renumber_eq_ok_iff fun j hj => ?_
    obtain rfl : j = 0 := by simpa using hj
    exact moveBehind_self
  have hrest : ∀ {q : Progress} {sb t : Scopes} {e' : Sweep},
      sweep (p.length + m.length + 1) (q.renumber (moveBehind p.length m.length)) s sb = .ok e' t ↔
        ∃ e, sweep (p.length + m.length + 1) q s sb = .ok e t ∧
          e' = e.renumber (moveBehind p.length m.length) :=
    sweep_renumber_eq_ok_iff fun j hj => moveBehind_of_lt (by omega)
  constructor
  · rintro ⟨a', sa, c', sc, b', sb, e', ha, hc, hb, he, rfl⟩
    obtain ⟨a, hbefore, rfl⟩ := hbefore.1 ha
    obtain ⟨c, hmethod, rfl⟩ := hmethod.1 hc
    have hdepth := depth_of_sweepAll hp hbefore
    obtain ⟨rfl, hcdepth, -⟩ := hm.sweep hdepth hmethod
    obtain ⟨b, hdeclaration, rfl⟩ := hdeclaration.1 hb
    obtain ⟨hdecl, rfl⟩ := (sweep_statement_eq_ok_iff hd _ hcdepth).1 hdeclaration
    obtain ⟨e, hrest, rfl⟩ := hrest.1 he
    have hb' := (sweep_statement_eq_ok_iff hd p.length hdepth).2 ⟨hdecl, rfl⟩
    refine ⟨a, _, c, e, _, sb, ⟨hbefore, hdepth, hb', hmethod, hrest⟩, ?_⟩
    simp [Sweep.renumber]
  · rintro ⟨a, b, c, e, sa, sb, h, rfl⟩
    obtain ⟨hdecl, rfl⟩ := (sweep_statement_eq_ok_iff hd _ h.depth).1 h.declaration
    obtain ⟨-, hcdepth, -⟩ := hm.sweep h.depth h.method
    have hb := (sweep_statement_eq_ok_iff hd p.length hcdepth).2 ⟨hdecl, rfl⟩
    refine ⟨_, sa, _, sa, _, sb, _, hbefore.2 ⟨a, h.before, rfl⟩, hmethod.2 ⟨c, h.method, rfl⟩,
      hdeclaration.2 ⟨_, hb, rfl⟩, hrest.2 ⟨e, h.rest, rfl⟩, ?_⟩
    simp [Sweep.renumber]

end Orders

/-! ## The walks -/

/-- Where a statement and lines that close all their blocks are exchanged,
    behind such lines, each header is followed by lines that are alike. -/
theorem alike_exchange {a c e : List Line} {line header : Line} {k : Nat}
    (hline : line.kind = .statement)
    (ha : a.countP (·.kind == .blockClose) = a.countP (·.kind == .blockOpen))
    (hc : c.countP (·.kind == .blockClose) = c.countP (·.kind == .blockOpen))
    (hk : (a ++ line :: (c ++ e))[k]? = some header) (hkind : header.kind = .blockOpen)
    (hcount : ((a ++ line :: (c ++ e)).take k).countP (·.kind == .blockClose) =
      ((a ++ line :: (c ++ e)).take k).countP (·.kind == .blockOpen)) :
    Alike (moveBehind a.length c.length) 1 ((a ++ line :: (c ++ e)).drop (k + 1))
      (((a ++ (c ++ line :: e)).drop (moveBehind a.length c.length (k + 1))).map
        (Line.renumber (moveBehind a.length c.length))) := by
  rcases Nat.lt_or_ge k a.length with hlt | hge
  · -- a header before the exchanged lines
    rw [List.getElem?_append_left hlt] at hk
    rw [List.take_append_of_le_length (by omega)] at hcount
    rw [moveBehind_of_le (by omega), List.drop_append_of_le_length (by omega),
      List.drop_append_of_le_length (by omega), List.map_append]
    exact .of_header hk hkind hcount ha _ _
  · obtain ⟨j, rfl⟩ := Nat.exists_eq_add_of_le hge
    rw [List.getElem?_append_right hge, Nat.add_sub_cancel_left] at hk
    rw [List.take_length_add_append, List.countP_append, List.countP_append, ha] at hcount
    rw [Nat.add_assoc a.length, List.drop_length_add_append, List.drop_succ_cons]
    cases j with
    | zero =>
      -- the statement is no header
      obtain rfl : line = header := Option.some.inj hk
      simp [hline] at hkind
    | succ j =>
      rw [List.getElem?_cons_succ] at hk
      rw [List.take_succ_cons, List.countP_cons_of_neg (by simp [hline]),
        List.countP_cons_of_neg (by simp [hline]), Nat.add_left_cancel_iff] at hcount
      rcases Nat.lt_or_ge j c.length with hlt | hge
      · -- a header among the lines that move forward
        rw [List.getElem?_append_left hlt] at hk
        rw [List.take_append_of_le_length (by omega)] at hcount
        rw [moveBehind_of_passed (by omega) (by omega), ← Nat.add_assoc, Nat.add_sub_cancel,
          List.drop_length_add_append, List.drop_append_of_le_length (by omega),
          List.drop_append_of_le_length (by omega), List.map_append]
        exact .of_header hk hkind hcount hc _ _
      · -- a header after the exchanged lines
        obtain ⟨i, rfl⟩ := Nat.exists_eq_add_of_le hge
        rw [moveBehind_of_lt (by omega), List.drop_length_add_append, Nat.add_assoc c.length,
          List.drop_length_add_append, Nat.add_assoc c.length, List.drop_length_add_append,
          List.drop_succ_cons]
        exact .map _

section Walks

variable {p m s : List String} {d : String} (hd : LineKind.ofText? d = some .statement)
  (hp : closings p = openings p) (hm : IsMethod m)

include hd hp hm

/-- In the two orders the surveys correspond. -/
theorem Parts.moved {a b c e : Sweep} {sa sb g : Scopes} (h : Parts p m s d a b c e sa sb g)
    (hend : e.after.depth = 0) :
    Moved (moveBehind p.length m.length)
      ⟨a.lines ++ b.lines ++ c.lines ++ e.lines, e.after.methods⟩
      ⟨(a.lines ++ c.lines ++ b.lines ++ e.lines).map
        (Line.renumber (moveBehind p.length m.length)),
        e.after.methods.renumber (moveBehind p.length m.length)⟩ := by
  have hspec := surveySpec (surveyAll_eq_ok_iff.2
    ⟨_, (sweepAll_declaration_first hd hp hm).2 ⟨a, b, c, e, sa, sb, h, rfl⟩, hend, rfl⟩)
  have hpcount : a.lines.countP (·.kind == .blockClose) =
      a.lines.countP (·.kind == .blockOpen) := by
    rw [countP_of_sweep h.before, countP_of_sweep h.before]
    exact hp
  have hmcount : c.lines.countP (·.kind == .blockClose) =
      c.lines.countP (·.kind == .blockOpen) := by
    rw [countP_of_sweep h.method, countP_of_sweep h.method]
    exact hm.closed
  refine ⟨rfl, ?_⟩
  intro method hmethod
  obtain ⟨k, header, hline, hk, hkind, -, hcount⟩ := hspec.exists_header hmethod
  obtain ⟨-, rfl⟩ := (sweep_statement_eq_ok_iff hd _ h.depth).1 h.declaration
  simp only [List.append_assoc, List.cons_append, List.nil_append] at hk hcount ⊢
  have halike := alike_exchange rfl hpcount hmcount hk hkind hcount
  rw [length_lines_of_sweep h.before, length_lines_of_sweep h.method] at halike
  rwa [hline, ← List.map_drop]

/-- In both orders the survey succeeds, and the surveys correspond, or in both
    it fails. -/
theorem surveyAll_exchange_cases :
    (∃ found found' g, surveyAll (p ++ [d] ++ m ++ s) .initial = .ok found g ∧
      surveyAll (p ++ m ++ [d] ++ s) .initial = .ok found' g ∧
      Moved (moveBehind p.length m.length) found found') ∨
    (∃ v t, surveyAll (p ++ [d] ++ m ++ s) .initial = .error v t) ∧
      ∃ v t, surveyAll (p ++ m ++ [d] ++ s) .initial = .error v t := by
  -- the parts of either sweep are those of the other
  have hparts : ∀ {a b c e : Sweep} {sa sb g : Scopes}, Parts p m s d a b c e sa sb g →
      e.after.depth = 0 → ∃ found found', surveyAll (p ++ [d] ++ m ++ s) .initial = .ok found g ∧
        surveyAll (p ++ m ++ [d] ++ s) .initial = .ok found' g ∧
        Moved (moveBehind p.length m.length) found found' := by
    intro a b c e sa sb g h hend
    have hA := (sweepAll_declaration_first hd hp hm).2 ⟨a, b, c, e, sa, sb, h, rfl⟩
    have hB := (sweepAll_method_first hd hp hm).2 ⟨a, b, c, e, sa, sb, h, rfl⟩
    exact ⟨_, _, surveyAll_eq_ok_iff.2 ⟨_, hA, hend, rfl⟩, surveyAll_eq_ok_iff.2 ⟨_, hB, hend, rfl⟩,
      h.moved hd hp hm hend⟩
  cases hA : surveyAll (p ++ [d] ++ m ++ s) .initial with
  | ok found g =>
    left
    obtain ⟨sw, hsw, hend, rfl⟩ := surveyAll_eq_ok_iff.1 hA
    obtain ⟨a, b, c, e, sa, sb, h, rfl⟩ := (sweepAll_declaration_first hd hp hm).1 hsw
    obtain ⟨found, found', hA', hB, hmoved⟩ := hparts h hend
    exact ⟨found, found', g, hA ▸ hA', hB, hmoved⟩
  | error v t =>
    right
    refine ⟨⟨v, t, rfl⟩, ?_⟩
    cases hB : surveyAll (p ++ m ++ [d] ++ s) .initial with
    | error v' t' => exact ⟨v', t', rfl⟩
    | ok found' g =>
      obtain ⟨sw, hsw, hend, rfl⟩ := surveyAll_eq_ok_iff.1 hB
      obtain ⟨a, b, c, e, sa, sb, h, rfl⟩ := (sweepAll_method_first hd hp hm).1 hsw
      obtain ⟨found, _, hA', -, -⟩ := hparts h hend
      rw [hA] at hA'
      cases hA'

end Walks

/-! ## Verdicts -/

/-- **How global declarations and methods interleave does not matter.** After
    lines that leave no block open, a statement and the complete method behind
    it can be exchanged: the survey succeeds in both orders or in neither, and
    so does the check, with the same counts. Where the survey succeeds, the
    violations are the same up to the numbers of the moved lines. -/
theorem checkLines_exchange {p m s : List String} {d : String}
    (hd : LineKind.ofText? d = some .statement) (hp : closings p = openings p) (hm : IsMethod m) :
    ((∃ found g, surveyAll (p ++ [d] ++ m ++ s) .initial = .ok found g) ↔
      ∃ found g, surveyAll (p ++ m ++ [d] ++ s) .initial = .ok found g) ∧
    (∀ summary, checkLines (p ++ [d] ++ m ++ s) = .ok summary ↔
      checkLines (p ++ m ++ [d] ++ s) = .ok summary) ∧
    ((∃ found g, surveyAll (p ++ [d] ++ m ++ s) .initial = .ok found g) →
      ∀ v', checkLines (p ++ m ++ [d] ++ s) = .error v' ↔
        ∃ v, checkLines (p ++ [d] ++ m ++ s) = .error v ∧
          v' = ⟨moveBehind p.length m.length v.line, v.fault⟩) := by
  have hlength : (p ++ m ++ [d] ++ s).length = (p ++ [d] ++ m ++ s).length := by
    simp only [List.length_append]
    omega
  rcases surveyAll_exchange_cases hd hp hm (s := s) with ⟨found, found', g, hA, hB, hmoved⟩ |
    ⟨⟨v, t, hA⟩, v', t', hB⟩
  · have hcheck := checkLines_of_moved hmoved hA hB
    refine ⟨⟨fun _ => ⟨found', g, hB⟩, fun _ => ⟨found, g, hA⟩⟩, ?_⟩
    rw [hcheck, hlength]
    cases hv : checkLines (p ++ [d] ++ m ++ s) with
    | ok summary =>
      rw [← lines_of_checkLines_eq_ok hv]
      exact ⟨fun _ => Iff.rfl, fun _ v' => ⟨nofun, nofun⟩⟩
    | error v =>
      refine ⟨fun summary => ⟨nofun, nofun⟩, fun _ v' => ⟨?_, ?_⟩⟩
      · rintro ⟨⟩
        exact ⟨v, rfl, rfl⟩
      · rintro ⟨_, ⟨⟩, rfl⟩
        rfl
  · rw [checkLines_of_surveyAll_eq_error hA, checkLines_of_surveyAll_eq_error hB, hA, hB]
    refine ⟨⟨nofun, nofun⟩, fun summary => ⟨nofun, nofun⟩, ?_⟩
    rintro ⟨found, g, hok⟩
    cases hok

/-- A violation inside a method that moves forward, past a declaration that the
    method uses. -/
theorem checkLines_exchange_error_in_method :
    checkLines (["int a;"] ++ ["int b = 2;"] ++ ["void f() \x7b", "b = true;", "return;", "\x7d"] ++
      ["int c;"]) = .error ⟨4, .typeMismatch .int "true"⟩ ∧
    checkLines (["int a;"] ++ ["void f() \x7b", "b = true;", "return;", "\x7d"] ++ ["int b = 2;"] ++
      ["int c;"]) = .error ⟨3, .typeMismatch .int "true"⟩ := by
  have hd : LineKind.ofText? "int b = 2;" = some .statement := by decide +kernel
  have hp : closings ["int a;"] = openings ["int a;"] := by decide +kernel
  have hm : IsMethod ["void f() \x7b", "b = true;", "return;", "\x7d"] :=
    ⟨⟨_, _, rfl, by decide +kernel⟩, by decide +kernel, by decide +kernel⟩
  have hA : checkLines (["int a;"] ++ ["int b = 2;"] ++
      ["void f() \x7b", "b = true;", "return;", "\x7d"] ++ ["int c;"]) =
      .error ⟨4, .typeMismatch .int "true"⟩ := by
    decide +kernel
  have hsurvey : surveyAll (["int a;"] ++ ["int b = 2;"] ++
      ["void f() \x7b", "b = true;", "return;", "\x7d"] ++ ["int c;"]) .initial =
      .ok ⟨[⟨1, "int a;", 0, .statement⟩, ⟨2, "int b = 2;", 0, .statement⟩,
        ⟨3, "void f() \x7b", 0, .blockOpen⟩, ⟨4, "b = true;", 1, .statement⟩,
        ⟨5, "return;", 1, .returnLine⟩, ⟨6, "\x7d", 1, .blockClose⟩, ⟨7, "int c;", 0, .statement⟩],
        ⟨[⟨"f", [], 3⟩]⟩⟩
        ⟨⟨.global, [⟨"a", .int, none, false⟩, ⟨"b", .int, some "2", false⟩,
          ⟨"c", .int, none, false⟩]⟩, []⟩ := by
    decide +kernel
  exact ⟨hA, ((checkLines_exchange hd hp hm).2.2 ⟨_, _, hsurvey⟩ _).2 ⟨_, hA, rfl⟩⟩

end LineCheck
