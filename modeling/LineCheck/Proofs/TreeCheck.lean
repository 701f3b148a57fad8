import LineCheck.Proofs.Survey
import LineCheck.Proofs.Tree

/-!
The check of a program line by line is the check of its tree.

* `checkProgram_lines`: on the lines of a tree the two passes do what the
  checker of trees does, with the same verdict, the same violation and the same
  scopes;
* `exists_program_of_survey`: lines that the survey accepts are the lines of a
  tree.
-/

namespace LineCheck

/-! ## The lines of a tree -/

namespace TextOf

variable {kind kind' : LineKind}

theorem kind_eq (line : TextOf [kind]) : line.kind = kind := by
  simpa using line.mem_kinds

theorem kind_eq_or (line : TextOf [kind, kind']) : line.kind = kind ∨ line.kind = kind' := by
  simpa using line.mem_kinds

end TextOf

/-- The line that a text is, with its number and depth. -/
def TextOf.line {kinds : List LineKind} (t : TextOf kinds) (number depth : Nat) : Line :=
  ⟨number, t.text, depth, t.kind⟩

/-- The lines of a body that stands after `count` lines, inside `depth` blocks. -/
def Body.records : Nat → Nat → Body → List Line
  | _, _, nil => []
  | count, depth, trivia line rest => line.line (count + 1) depth :: rest.records (count + 1) depth
  | count, depth, returnLine line rest =>
    line.line (count + 1) depth :: rest.records (count + 1) depth
  | count, depth, statement line rest =>
    line.line (count + 1) depth :: rest.records (count + 1) depth
  | count, depth, block header body close rest =>
    header.line (count + 1) depth :: body.records (count + 1) (depth + 1) ++
      close.line (count + body.size + 2) (depth + 1) :: rest.records (count + body.size + 2) depth

/-- The lines of a program that stands after `count` lines. -/
def Program.records : Nat → Program → List Line
  | _, [] => []
  | count, .trivia line :: parts | count, .declaration line :: parts =>
    line.line (count + 1) 0 :: records (count + 1) parts
  | count, .method header body close :: parts =>
    header.line (count + 1) 0 :: body.records (count + 1) 1 ++
      close.line (count + body.size + 2) 1 :: records (count + body.size + 2) parts

@[simp]
theorem Program.lines_cons (part : Part) (parts : Program) :
    Program.lines (part :: parts) = part.lines ++ Program.lines parts :=
  rfl

namespace Body

@[simp]
theorem size_nil : nil.size = 0 :=
  rfl

@[simp]
theorem size_trivia (line : TextOf [.comment, .blank]) (rest : Body) :
    (trivia line rest).size = rest.size + 1 :=
  rfl

@[simp]
theorem size_returnLine (line : TextOf [.returnLine]) (rest : Body) :
    (returnLine line rest).size = rest.size + 1 :=
  rfl

@[simp]
theorem size_statement (line : TextOf [.statement]) (rest : Body) :
    (statement line rest).size = rest.size + 1 :=
  rfl

@[simp]
theorem size_block (header : TextOf [.blockOpen]) (body : Body) (close : TextOf [.blockClose])
    (rest : Body) : (block header body close rest).size = body.size + rest.size + 2 := by
  simp [size, lines, Nat.add_assoc]

end Body

@[simp]
theorem Part.length_lines_method (header : TextOf [.blockOpen]) (body : Body)
    (close : TextOf [.blockClose]) :
    (Part.method header body close).lines.length = body.size + 2 := by
  simp [Part.lines, Body.size]

@[simp]
theorem Body.length_records (b : Body) (count depth : Nat) :
    (b.records count depth).length = b.size := by
  induction b generalizing count depth with
  | nil => rfl
  | trivia line rest ih | returnLine line rest ih | statement line rest ih =>
    simp [records, ih]
  | block header body close rest ihb ihr =>
    simp only [records, List.length_append, List.length_cons, ihb, ihr, size_block]
    omega

/-! ## The survey of a tree -/

/-- The survey of a line whose kind is known. -/
theorem survey_cons {kinds : List LineKind} (t : TextOf kinds) (count : Nat) (p : Progress)
    (texts : List String) :
    survey count p (t.text :: texts) = (do
      let p' ← surveyLine (count + 1) t.text p.methods t.kind p.depth
      let rest ← survey (count + 1) p' texts
      return ⟨t.line (count + 1) p.depth :: rest.lines, rest.methods⟩) := by
  rw [survey, t.ofText?_text]
  rfl

theorem surveyLine_inside {kind : LineKind} (ho : kind ≠ .blockOpen) (hc : kind ≠ .blockClose)
    (line : Nat) (text : String) (methods : MethodTable) (depth : Nat) :
    surveyLine line text methods kind (depth + 1) = pure ⟨depth + 1, methods⟩ := by
  cases kind <;> first | rfl | contradiction

/-- Inside a method a line without a brace is only recorded. -/
theorem survey_cons_inside {kinds : List LineKind} (t : TextOf kinds) (ho : t.kind ≠ .blockOpen)
    (hc : t.kind ≠ .blockClose) (count depth : Nat) (methods : MethodTable)
    (texts : List String) :
    survey count ⟨depth + 1, methods⟩ (t.text :: texts) = (do
      let rest ← survey (count + 1) ⟨depth + 1, methods⟩ texts
      return ⟨t.line (count + 1) (depth + 1) :: rest.lines, rest.methods⟩) := by
  rw [survey_cons, surveyLine_inside ho hc, pure_bind]

/-- The survey goes through a body and only records it, whatever follows. -/
theorem survey_body (b : Body) (count depth : Nat) (methods : MethodTable) (texts : List String) :
    survey count ⟨depth + 1, methods⟩ (b.lines ++ texts) = (do
      let rest ← survey (count + b.size) ⟨depth + 1, methods⟩ texts
      return ⟨b.records count (depth + 1) ++ rest.lines, rest.methods⟩) := by
  induction b generalizing count depth texts with
  | nil => simp [Body.lines, Body.records]
  | trivia line rest ih =>
    obtain ⟨ho, hc⟩ : line.kind ≠ .blockOpen ∧ line.kind ≠ .blockClose := by
      rcases line.kind_eq_or with h | h <;> simp [h]
    rw [Body.lines, List.cons_append, survey_cons_inside line ho hc, ih]
    simp [Body.records, Nat.add_assoc, Nat.add_comm 1]
  | returnLine line rest ih | statement line rest ih =>
    rw [Body.lines, List.cons_append,
      survey_cons_inside line (by simp [line.kind_eq]) (by simp [line.kind_eq]), ih]
    simp [Body.records, Nat.add_assoc, Nat.add_comm 1]
  | block header body close rest ihb ihr =>
    rw [Body.lines, List.cons_append, List.cons_append, List.append_assoc, survey_cons,
      header.kind_eq]
    simp only [surveyLine, pure_bind, ihb, bind_assoc]
    rw [List.cons_append, survey_cons, close.kind_eq]
    simp only [surveyLine, pure_bind, ihr, bind_assoc]
    have hclose : count + 1 + body.size + 1 = count + body.size + 2 := by omega
    have hrest : count + body.size + 2 + rest.size = count + (body.size + rest.size + 2) := by omega
    rw [hclose, hrest]
    simp [Body.records]

/-- The survey of a program declares and registers what is global and records
    every line, whatever follows. -/
theorem survey_program (p : Program) (count : Nat) (methods : MethodTable) (texts : List String) :
    survey count ⟨0, methods⟩ (p.lines ++ texts) = (do
      let methods' ← p.introduce count methods
      let rest ← survey (count + p.lines.length) ⟨0, methods'⟩ texts
      return ⟨p.records count ++ rest.lines, rest.methods⟩) := by
  induction p generalizing count methods with
  | nil => simp [Program.lines, Program.introduce, Program.records]
  | cons part parts ih =>
    rw [Program.lines_cons, List.append_assoc, List.length_append]
    cases part with
    | trivia line =>
      have hs : ∀ n : Nat, surveyLine n line.text methods line.kind 0 = pure ⟨0, methods⟩ := by
        intro n
        rcases line.kind_eq_or with h | h <;> rw [h] <;> rfl
      rw [Part.lines, List.singleton_append, survey_cons, hs, pure_bind, ih]
      simp [Program.introduce, Program.records, Nat.add_assoc, Nat.add_comm 1]
    | declaration line =>
      rw [Part.lines, List.singleton_append, survey_cons, line.kind_eq]
      simp only [surveyLine, bind_assoc, pure_bind, ih]
      simp [Program.introduce, Program.records, Nat.add_assoc, Nat.add_comm 1]
    | method header body close =>
      rw [Part.length_lines_method, Part.lines, List.cons_append, List.cons_append,
        List.append_assoc, survey_cons, header.kind_eq]
      simp only [surveyLine, bind_assoc, pure_bind, survey_body]
      simp only [List.singleton_append, survey_cons, close.kind_eq]
      simp only [surveyLine, bind_assoc, pure_bind, ih]
      have hclose : count + 1 + body.size + 1 = count + body.size + 2 := by omega
      have hrest : count + body.size + 2 + (Program.lines parts).length =
          count + (body.size + 2 + (Program.lines parts).length) := by omega
      rw [hclose, hrest]
      simp [Program.introduce, Program.records]

/-! ## The walk through a tree -/

namespace Body

/-- The mark for a return after a body at a depth, from the mark before it. -/
def mark (depth : Nat) : Body → Bool → Bool
  | nil, returned => returned
  | trivia _ rest, returned => rest.mark depth returned
  | returnLine _ rest, returned => rest.mark depth (returned || depth == 1)
  | statement _ rest, _ | block _ _ _ rest, _ => rest.mark depth false

/-- Inside a block no return is marked. -/
theorem mark_block (b : Body) (depth : Nat) : b.mark (depth + 2) false = false := by
  induction b with
  | nil => rfl
  | trivia line rest ih | statement line rest ih => exact ih
  | returnLine line rest ih => simpa [mark] using ih
  | block header body close rest _ ih => exact ih

theorem mark_one (b : Body) (returned : Bool) :
    b.mark 1 returned = (b.endsInReturn || (returned && b.isTrivia)) := by
  induction b generalizing returned with
  | nil => simp [mark, endsInReturn, isTrivia]
  | trivia line rest ih => simp [mark, endsInReturn, isTrivia, ih]
  | returnLine line rest ih => simp [mark, endsInReturn, isTrivia, ih, Bool.or_comm]
  | statement line rest ih => simp [mark, endsInReturn, isTrivia, ih]
  | block header body close rest _ ih => simp [mark, endsInReturn, isTrivia, ih]

end Body

theorem checkStatement_line {kinds : List LineKind} (t : TextOf kinds) (methods : MethodTable)
    (number depth : Nat) :
    checkStatement methods (t.line number depth) = statementAt methods number t.text :=
  rfl

/-- Opening a block checks its header and enters a scope. -/
theorem checkBlock_line {kinds : List LineKind} (t : TextOf kinds) (number depth : Nat) :
    checkBlock (t.line number depth) = (do
      headerAt number t.text
      modify (·.enter .block)) := by
  unfold checkBlock headerAt TextOf.line
  cases BlockHeader.ofText? t.text <;> rfl

/-- The walk goes through a body as the checker of trees does, whatever follows. -/
theorem walk_body (methods : MethodTable) (name : String) (b : Body) (count depth : Nat)
    (returned : Bool) (lines : List Line) :
    walk methods name (b.records count (depth + 1) ++ lines) (depth + 1) returned = (do
      b.check methods count
      walk methods name lines (depth + 1) (b.mark (depth + 1) returned)) := by
  induction b generalizing count depth returned lines with
  | nil => simp [Body.records, Body.check, Body.mark]
  | trivia line rest ih =>
    rw [Body.records, List.cons_append, walk]
    rcases line.kind_eq_or with h | h <;> simp only [TextOf.line, h, ih, Body.check, Body.mark]
  | returnLine line rest ih =>
    rw [Body.records, List.cons_append, walk]
    simp only [TextOf.line, line.kind_eq, ih, Body.check, Body.mark]
  | statement line rest ih =>
    rw [Body.records, List.cons_append, walk, checkStatement_line]
    simp only [TextOf.line, line.kind_eq, ih, Body.check, Body.mark, bind_assoc]
  | block header body close rest ihb ihr =>
    rw [Body.records, List.cons_append, List.cons_append, walk, checkBlock_line]
    simp only [TextOf.line, header.kind_eq, List.append_assoc, ihb, Body.mark_block]
    rw [List.cons_append, walk]
    simp [close.kind_eq, ihr, Body.check, Body.mark, inScope]

/-- The walk through a method whose body stands after its header. -/
theorem walkMethod_eq_checkMethod {found : Survey} {m : Method} {b : Body}
    {close : TextOf [.blockClose]} {rest : List Line}
    (h : found.lines.drop m.line =
      b.records m.line 1 ++ close.line (m.line + b.size + 1) 1 :: rest) :
    walkMethod found m = b.checkMethod found.methods m := by
  have hwalk : walk found.methods m.name (found.lines.drop m.line) 1 false = (do
      b.check found.methods m.line
      b.checkReturn m
      modify Scopes.leave) := by
    rw [h, walk_body _ _ b m.line 0, Nat.zero_add, Body.mark_one, walk, Body.checkReturn]
    cases b.endsInReturn <;> simp [TextOf.line, close.kind_eq]
  rw [walkMethod, hwalk, Body.checkMethod, inScope]
  simp only [bind_assoc]

/-- The lines of the method headers of a program that stands after `count` lines. -/
def Program.headers : Nat → Program → List Nat
  | _, [] => []
  | count, .trivia _ :: parts | count, .declaration _ :: parts => headers (count + 1) parts
  | count, .method _ body _ :: parts => (count + 1) :: headers (count + body.size + 2) parts

theorem drop_add_of_drop_eq_append {α : Type} {l a b : List α} {n k : Nat} (h : l.drop n = a ++ b)
    (hk : a.length = k) : l.drop (n + k) = b := by
  rw [← List.drop_drop, h, ← hk, List.drop_left]

/-- The walk through the methods of a program, where the lines from `count` on
    are the program. -/
theorem walkMethods_eq_checkBodies (p : Program) {count : Nat} {found : Survey}
    (hfound : found.lines.drop count = p.records count) {ms : List Method}
    (hms : ms.map Method.line = p.headers count) :
    walkMethods found ms = checkBodies found.methods (ms.zip p.bodies) := by
  induction p generalizing count ms with
  | nil =>
    obtain rfl : ms = [] := by simpa [Program.headers] using hms
    rfl
  | cons part parts ih =>
    cases part with
    | trivia line | declaration line =>
      exact ih (drop_add_of_drop_eq_append (a := [_]) hfound rfl) hms
    | method header body close =>
      obtain ⟨m, ms, rfl, hm, hms⟩ := List.map_eq_cons_iff.1 hms
      have hbody : found.lines.drop m.line = body.records m.line 1 ++
          close.line (m.line + body.size + 1) 1 ::
            Program.records (count + body.size + 2) parts := by
        rw [hm, show count + 1 + body.size + 1 = count + body.size + 2 by omega]
        exact drop_add_of_drop_eq_append (a := [header.line (count + 1) 0]) hfound rfl
      have hrest : found.lines.drop (count + body.size + 2) =
          Program.records (count + body.size + 2) parts := by
        refine drop_add_of_drop_eq_append (k := body.size + 2) (a := header.line (count + 1) 0 ::
          body.records (count + 1) 1 ++ [close.line (count + body.size + 2) 1]) ?_ (by simp)
        rw [hfound, Program.records]
        simp
      rw [walkMethods, Program.bodies, List.zip_cons_cons, checkBodies,
        walkMethod_eq_checkMethod hbody, ih hrest hms]

/-! ## Both passes -/

/-- The methods that a program registers are those of its headers, after the
    methods before them. -/
theorem Program.introduce_eq_ok {p : Program} {count : Nat} {methods methods' : MethodTable}
    {s s' : Scopes} (h : p.introduce count methods s = .ok methods' s') :
    ∃ ms, methods'.toList = methods.toList ++ ms ∧ ms.map Method.line = p.headers count := by
  induction p generalizing count methods s with
  | nil =>
    cases h
    exact ⟨[], by simp, rfl⟩
  | cons part parts ih =>
    cases part with
    | trivia line => exact ih h
    | declaration line =>
      obtain ⟨u, t, -, ht⟩ := bind_eq_ok_iff.1 h
      exact ih ht
    | method header body close =>
      obtain ⟨t, s₁, hb, ht⟩ := bind_eq_ok_iff.1 h
      obtain ⟨-, hd, -, hr⟩ := globalBlock_eq_ok_iff.1 hb
      obtain ⟨-, params, -, rfl⟩ := MethodTable.register_eq_ok_iff.1 hr
      obtain ⟨ms, hms, hlines⟩ := ih ht
      refine ⟨⟨hd.name, params, count + 1⟩ :: ms, ?_, ?_⟩
      · rw [hms, MethodTable.push]; simp
      · rw [List.map_cons, hlines, Program.headers]

theorem surveyAll_lines (p : Program) :
    surveyAll p.lines = (do
      let methods ← p.introduce 0 .empty
      return ⟨p.records 0, methods⟩) := by
  have h := survey_program p 0 .empty []
  simp only [List.append_nil, survey, ↓reduceIte, pure_bind] at h
  exact h

theorem Program.length_records (p : Program) (count : Nat) :
    (p.records count).length = p.lines.length := by
  induction p generalizing count with
  | nil => rfl
  | cons part parts ih =>
    cases part with
    | trivia line | declaration line => simp [records, Part.lines, ih]
    | method header body close =>
      simp only [records, List.length_append, List.length_cons, Body.length_records, ih,
        lines_cons, Part.length_lines_method]
      omega

/-- **On the lines of a tree the two passes are the checker of trees.** -/
theorem checkProgram_lines (p : Program) : checkProgram p.lines = p.check := by
  funext s
  rw [checkProgram, surveyAll_lines, Program.check, bind_assoc]
  cases h : p.introduce 0 .empty s with
  | error v t => rw [bind_of_error h, bind_of_error h]
  | ok methods t =>
    obtain ⟨ms, hms, hlines⟩ := Program.introduce_eq_ok h
    have hw : walkMethods ⟨p.records 0, methods⟩ ms = checkBodies methods (ms.zip p.bodies) :=
      walkMethods_eq_checkBodies p rfl hlines
    rw [bind_of_ok h, bind_of_ok h, pure_bind]
    simp only [MethodTable.empty, List.nil_append] at hms
    simp only [hms, hw, Program.length_records]

/-! ## Lines that are trees -/

/-- Lines that can be surveyed inside a block are a body, a closing brace and
    what follows. -/
theorem exists_body_of_survey {texts : List String} {count depth : Nat} {methods : MethodTable}
    {s s' : Scopes} {found : Survey}
    (h : survey count ⟨depth + 1, methods⟩ texts s = .ok found s') :
    ∃ (b : Body) (close : TextOf [.blockClose]) (rest : List String) (found' : Survey),
      texts = b.lines ++ close.text :: rest ∧
        survey (count + b.size + 1) ⟨depth, methods⟩ rest s = .ok found' s' := by
  -- a block is followed by lines that are no tail of those it was found in, so
  -- the induction is on the number of lines
  induction hn : texts.length using Nat.strongRecOn generalizing texts count depth found with
  | ind n ih =>
    cases texts with
    | nil => simp [survey] at h
    | cons text texts =>
      obtain ⟨kind, p, t, found', hk, hline, hrest, -⟩ := survey_cons_eq_ok_iff.1 h
      rw [List.length_cons] at hn
      cases hline with
      | trivia hkind =>
        obtain ⟨b, close, rest, found', rfl, hr⟩ := ih _ (by omega) hrest rfl
        refine ⟨.trivia ⟨text, kind, by simpa using hkind, hk⟩ b, close, rest, found', rfl, ?_⟩
        rwa [Body.size_trivia, ← Nat.add_assoc, Nat.add_right_comm _ b.size]
      | inside hkind =>
        obtain ⟨b, close, rest, found', rfl, hr⟩ := ih _ (by omega) hrest rfl
        rcases hkind with rfl | rfl
        · refine ⟨.returnLine ⟨text, _, by simp, hk⟩ b, close, rest, found', rfl, ?_⟩
          rwa [Body.size_returnLine, ← Nat.add_assoc, Nat.add_right_comm _ b.size]
        · refine ⟨.statement ⟨text, _, by simp, hk⟩ b, close, rest, found', rfl, ?_⟩
          rwa [Body.size_statement, ← Nat.add_assoc, Nat.add_right_comm _ b.size]
      | opens =>
        obtain ⟨inner, close, rest, found', rfl, hr⟩ := ih _ (by omega) hrest rfl
        rw [List.length_append, List.length_cons] at hn
        obtain ⟨b, close', rest', found'', rfl, hr'⟩ := ih _ (by omega) hr rfl
        refine ⟨.block ⟨text, _, by simp, hk⟩ inner close b, close', rest', found'', ?_, ?_⟩
        · simp [Body.lines]
        · rw [Body.size_block]
          rwa [show count + 1 + inner.size + 1 + b.size + 1 =
            count + (inner.size + b.size + 2) + 1 by omega] at hr'
      | closes => exact ⟨.nil, ⟨text, _, by simp, hk⟩, texts, found', rfl, hrest⟩

/-- Lines that can be surveyed are the lines of a tree. -/
theorem exists_program_of_survey {texts : List String} {count : Nat} {methods : MethodTable}
    {s s' : Scopes} {found : Survey} (h : survey count ⟨0, methods⟩ texts s = .ok found s') :
    ∃ p : Program, p.lines = texts := by
  induction hn : texts.length using Nat.strongRecOn
    generalizing texts count methods s found with
  | ind n ih =>
    cases texts with
    | nil => exact ⟨[], rfl⟩
    | cons text texts =>
      obtain ⟨kind, p, t, found', hk, hline, hrest, -⟩ := survey_cons_eq_ok_iff.1 h
      rw [List.length_cons] at hn
      cases hline with
      | trivia hkind =>
        obtain ⟨parts, rfl⟩ := ih _ (by omega) hrest rfl
        exact ⟨.trivia ⟨text, kind, by simpa using hkind, hk⟩ :: parts, rfl⟩
      | declaration _ _ =>
        obtain ⟨parts, rfl⟩ := ih _ (by omega) hrest rfl
        exact ⟨.declaration ⟨text, _, by simp, hk⟩ :: parts, rfl⟩
      | method _ _ =>
        obtain ⟨b, close, rest, found'', rfl, hr⟩ := exists_body_of_survey hrest
        rw [List.length_append, List.length_cons] at hn
        obtain ⟨parts, rfl⟩ := ih _ (by omega) hr rfl
        exact ⟨.method ⟨text, _, by simp, hk⟩ b close :: parts, by simp [Part.lines]⟩

/-! ## Verdicts -/

theorem checkLines_lines (p : Program) : checkLines p.lines = p.verdict := by
  have h : checkProgram p.lines .initial = p.check .initial := by rw [checkProgram_lines]
  cases hp : p.check .initial with
  | ok summary s => simp only [checkLines, Program.verdict, h, hp]
  | error v s => simp only [checkLines, Program.verdict, h, hp]

/-- Lines with a legal verdict are the lines of a tree. -/
theorem exists_program_of_checkLines {lines : List String} {summary : Summary}
    (h : checkLines lines = .ok summary) : ∃ p : Program, p.lines = lines := by
  unfold checkLines checkProgram at h
  cases hs : surveyAll lines .initial with
  | error v t => simp [bind_of_error hs] at h
  | ok found t => exact exists_program_of_survey hs

/-- **The check line by line is the check of the tree.** Lines are legal iff
    they are the lines of a tree that is legal, with the same summary; and on
    the lines of a tree the verdict is that on the tree, violations included. -/
theorem checkLines_eq_ok_iff_exists_program (lines : List String) :
    (∀ summary, checkLines lines = .ok summary ↔
      ∃ p : Program, p.lines = lines ∧ p.verdict = .ok summary) ∧
    ∀ p : Program, p.lines = lines → checkLines lines = p.verdict := by
  refine ⟨fun summary => ⟨fun h => ?_, ?_⟩, ?_⟩
  · obtain ⟨p, rfl⟩ := exists_program_of_checkLines h
    exact ⟨p, rfl, by rw [← checkLines_lines, h]⟩
  · rintro ⟨p, rfl, h⟩
    rw [checkLines_lines, h]
  · rintro p rfl
    exact checkLines_lines p

end LineCheck
