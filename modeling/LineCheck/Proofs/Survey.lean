import LineCheck.Proofs.Checking

/-!
What the survey does, line by line.

* `surveyLine_eq_ok_iff`: `Surveyed` lists all that a line can do to a survey
  that goes on;
* `survey_cons_eq_ok_iff`: a survey that succeeds, taken apart at its first
  line.
-/

namespace LineCheck

/-! ## Registration -/

theorem MethodTable.register_eq_ok_iff {t t' : MethodTable} {header : MethodHeader} {line : Nat} :
    t.register header line = .ok t' ↔ t.get? header.name = none ∧
      ∃ params, Parameter.toVariables [] header.params = .ok params ∧
        t' = t.push ⟨header.name, params, line⟩ := by
  unfold register Method.ofHeader
  cases t.get? header.name <;> cases Parameter.toVariables [] header.params <;>
    simp [Except.map, eq_comm]

theorem Parameter.map_name_toVariable (ps : List Parameter) :
    (ps.map toVariable).map Variable.name = ps.map Parameter.name := by
  rw [List.map_map]
  rfl

/-- **Parameters are admitted as they are declared**, where they have different
    names that are not used already, and no initial values. -/
theorem Parameter.toVariables_eq_ok_iff {taken : List String} {ps : List Parameter}
    {params : List Variable} :
    toVariables taken ps = .ok params ↔ params = ps.map toVariable ∧ (ps.map Parameter.name).Nodup ∧
      (∀ p ∈ ps, p.name ∉ taken) ∧ ∀ p ∈ ps, p.initial = none := by
  induction ps generalizing taken params with
  | nil => simp [toVariables, eq_comm]
  | cons p ps ih =>
    have hcons : toVariables taken (p :: ps) = .ok params ↔ p.name ∉ taken ∧ p.initial = none ∧
        ∃ rest, toVariables (p.name :: taken) ps = .ok rest ∧ params = p.toVariable :: rest := by
      rw [toVariables]
      by_cases htaken : p.name ∈ taken <;> cases p.initial <;>
        cases toVariables (p.name :: taken) ps <;> simp [htaken, Except.map, eq_comm]
    rw [hcons, List.map_cons, List.map_cons, List.nodup_cons, List.forall_mem_cons,
      List.forall_mem_cons]
    constructor
    · rintro ⟨htaken, hinitial, rest, hrest, rfl⟩
      obtain ⟨rfl, hnodup, hnew, hplain⟩ := ih.1 hrest
      refine ⟨rfl, ⟨?_, hnodup⟩, ⟨htaken, fun q hq => ?_⟩, hinitial, hplain⟩
      · intro hmem
        obtain ⟨q, hq, hname⟩ := List.mem_map.1 hmem
        exact hnew q hq (by simp [hname])
      · exact fun hmem => hnew q hq (List.mem_cons_of_mem _ hmem)
    · rintro ⟨rfl, ⟨hname, hnodup⟩, ⟨htaken, hnew⟩, hinitial, hplain⟩
      refine ⟨htaken, hinitial, _, ih.2 ⟨rfl, hnodup, fun q hq hmem => ?_, hplain⟩, rfl⟩
      rcases List.mem_cons.1 hmem with heq | hmem
      · exact hname (List.mem_map.2 ⟨q, hq, heq⟩)
      · exact hnew q hq hmem

/-! ## A single line -/

section Line

variable {line : Nat} {text : String} {methods methods' : MethodTable} {s s' : Scopes}

theorem globalStatement_eq_ok_iff {u : Unit} :
    globalStatement line text s = .ok u s' ↔
      ∃ d n, Statement.ofText? text = some (.declaration d) ∧ declare d s = .ok n s' := by
  unfold globalStatement
  cases Statement.ofText? text with
  | none => simp
  | some statement => cases statement <;> simp

theorem globalBlock_eq_ok_iff :
    globalBlock line text methods s = .ok methods' s' ↔ s' = s ∧
      ∃ header, MethodHeader.ofText? text = some header ∧
        methods.register header line = .ok methods' := by
  unfold globalBlock
  cases MethodHeader.ofText? text with
  | none => simp
  | some header => cases h : methods.register header line <;> simp [h, and_comm, eq_comm]

/-- What a line does to a survey that goes on: how many blocks are open after
    it, the methods so far and the scopes. -/
inductive Surveyed (line : Nat) (text : String) (methods : MethodTable) (s : Scopes) :
    LineKind → Nat → Progress → Scopes → Prop
  | trivia {kind : LineKind} {depth : Nat} (h : kind = .comment ∨ kind = .blank) :
    Surveyed line text methods s kind depth ⟨depth, methods⟩ s
  | inside {kind : LineKind} {depth : Nat} (h : kind = .returnLine ∨ kind = .statement) :
    Surveyed line text methods s kind (depth + 1) ⟨depth + 1, methods⟩ s
  | declaration {d : Declaration} {n : Nat} {s' : Scopes}
    (ht : Statement.ofText? text = some (.declaration d)) (hd : declare d s = .ok n s') :
    Surveyed line text methods s .statement 0 ⟨0, methods⟩ s'
  | method {header : MethodHeader} {methods' : MethodTable}
    (ht : MethodHeader.ofText? text = some header)
    (hr : methods.register header line = .ok methods') :
    Surveyed line text methods s .blockOpen 0 ⟨1, methods'⟩ s
  | opens {depth : Nat} : Surveyed line text methods s .blockOpen (depth + 1) ⟨depth + 2, methods⟩ s
  | closes {depth : Nat} : Surveyed line text methods s .blockClose (depth + 1) ⟨depth, methods⟩ s

theorem surveyLine_eq_ok_iff {kind : LineKind} {depth : Nat} {p : Progress} :
    surveyLine line text methods kind depth s = .ok p s' ↔
      Surveyed line text methods s kind depth p s' := by
  constructor
  · intro h
    cases kind with
    | comment => cases depth <;> cases h <;> exact .trivia (Or.inl rfl)
    | blank => cases depth <;> cases h <;> exact .trivia (Or.inr rfl)
    | returnLine =>
      cases depth with
      | zero => cases h
      | succ depth => cases h; exact .inside (Or.inl rfl)
    | blockClose =>
      cases depth with
      | zero => cases h
      | succ depth => cases h; exact .closes
    | blockOpen =>
      cases depth with
      | zero =>
        obtain ⟨methods', t, hb, ht⟩ := bind_eq_ok_iff.1 h
        obtain ⟨rfl, header, hh, hr⟩ := globalBlock_eq_ok_iff.1 hb
        cases ht
        exact .method hh hr
      | succ depth => cases h; exact .opens
    | statement =>
      cases depth with
      | zero =>
        obtain ⟨u, t, hs, ht⟩ := bind_eq_ok_iff.1 h
        obtain ⟨d, n, hd, hn⟩ := globalStatement_eq_ok_iff.1 hs
        cases ht
        exact .declaration hd hn
      | succ depth => cases h; exact .inside (Or.inr rfl)
  · intro h
    cases h with
    | trivia h => rcases h with rfl | rfl <;> rfl
    | inside h => rcases h with rfl | rfl <;> rfl
    | declaration ht hd =>
      exact bind_eq_ok_iff.2 ⟨(), _, globalStatement_eq_ok_iff.2 ⟨_, _, ht, hd⟩, rfl⟩
    | method ht hr =>
      exact bind_eq_ok_iff.2 ⟨_, _, globalBlock_eq_ok_iff.2 ⟨rfl, _, ht, hr⟩, rfl⟩
    | opens => rfl
    | closes => rfl

end Line

/-! ## All lines -/

theorem survey_nil_eq_ok_iff {count : Nat} {p : Progress} {s s' : Scopes} {found : Survey} :
    survey count p [] s = .ok found s' ↔ p.depth = 0 ∧ found = ⟨[], p.methods⟩ ∧ s' = s := by
  by_cases h : p.depth = 0 <;> simp [survey, h, eq_comm]

theorem survey_cons_eq_ok_iff {count : Nat} {p : Progress} {text : String} {texts : List String}
    {s s' : Scopes} {found : Survey} :
    survey count p (text :: texts) s = .ok found s' ↔
      ∃ kind p' t rest, LineKind.ofText? text = some kind ∧
        Surveyed (count + 1) text p.methods s kind p.depth p' t ∧
        survey (count + 1) p' texts t = .ok rest s' ∧
        found = ⟨⟨count + 1, text, p.depth, kind⟩ :: rest.lines, rest.methods⟩ := by
  rw [survey]
  cases LineKind.ofText? text with
  | none => simp
  | some kind =>
    simp only [bind_eq_ok_iff, surveyLine_eq_ok_iff, pure_apply]
    constructor
    · rintro ⟨p', t, hline, rest, t', hrest, heq⟩
      cases heq
      exact ⟨kind, p', t, rest, rfl, hline, hrest, rfl⟩
    · rintro ⟨kind', p', t, rest, hk, hline, hrest, rfl⟩
      cases hk
      exact ⟨p', t, hline, rest, s', hrest, rfl⟩

end LineCheck
