import LineCheck.Proofs.Sweep

/-!
New numbers for the lines of a program.

Where lines move, the violations move with them and nothing else changes. Both
passes commute with a change `f` of the numbers: the sweep (`sweep_renumber`)
and the walk (`walk_of_alike`). For a walk the lines need only be `Alike`, since
it reads no further than the brace that closes its method, and trivia do not
count. So two surveys that correspond (`Moved`) lead to corresponding verdicts
(`checkLines_of_moved`).
-/

namespace LineCheck

/-! ## Numbers -/

/-- The violation at its line's new number. -/
def Violation.renumber (f : Nat → Nat) (v : Violation) : Violation :=
  { v with line := f v.line }

/-- The line with its new number. -/
def Line.renumber (f : Nat → Nat) (line : Line) : Line :=
  { line with number := f line.number }

/-- The method with the new number of its header. -/
def Method.renumber (f : Nat → Nat) (m : Method) : Method :=
  { m with line := f m.line }

/-- The methods with the new numbers of their headers. -/
def MethodTable.renumber (f : Nat → Nat) (t : MethodTable) : MethodTable :=
  ⟨t.toList.map (Method.renumber f)⟩

/-- How far a survey has come, in new numbers. -/
def Progress.renumber (f : Nat → Nat) (p : Progress) : Progress :=
  { p with methods := p.methods.renumber f }

/-- What a sweep gives, in new numbers. -/
def Sweep.renumber (f : Nat → Nat) (sw : Sweep) : Sweep :=
  ⟨sw.lines.map (Line.renumber f), sw.after.renumber f⟩

/-- The same work, which stops at the new number of a line. -/
def Checking.renumber {α : Type} (f : Nat → Nat) (work : Checking α) : Checking α := fun s =>
  match work s with
  | .ok a t => .ok a t
  | .error v t => .error (v.renumber f) t

/-! The numbers may also stay. -/

@[simp]
theorem Line.renumber_id : Line.renumber id = id :=
  rfl

@[simp]
theorem Method.renumber_id : Method.renumber id = id :=
  rfl

@[simp]
theorem MethodTable.renumber_id (t : MethodTable) : t.renumber id = t := by
  rw [renumber, Method.renumber_id, List.map_id]

@[simp]
theorem Checking.renumber_id {α : Type} (work : Checking α) : work.renumber id = work := by
  funext s
  unfold renumber
  cases work s <;> rfl

section Work

variable {α β : Type} {f : Nat → Nat} {work : Checking α} {s s' : Scopes}

theorem renumber_eq_ok_iff {a : α} : work.renumber f s = .ok a s' ↔ work s = .ok a s' := by
  unfold Checking.renumber
  cases work s <;> simp

theorem renumber_of_error {v : Violation} (h : work s = .error v s') :
    work.renumber f s = .error (v.renumber f) s' := by
  unfold Checking.renumber
  rw [h]

@[simp]
theorem renumber_pure (f : Nat → Nat) (a : α) : Checking.renumber f (pure a) = pure a :=
  rfl

@[simp]
theorem renumber_modify (f : Nat → Nat) (g : Scopes → Scopes) :
    Checking.renumber f (modify g) = modify g :=
  rfl

@[simp]
theorem renumber_fail (f : Nat → Nat) (line : Nat) (fault : Fault) :
    Checking.renumber f (Checking.fail line fault : Checking α) = Checking.fail (f line) fault :=
  rfl

@[simp]
theorem renumber_bind (f : Nat → Nat) (x : Checking α) (g : α → Checking β) :
    Checking.renumber f (x >>= g) = (do
      let a ← x.renumber f
      (g a).renumber f) := by
  funext s
  cases h : x s with
  | ok a t =>
    rw [bind_of_ok (renumber_eq_ok_iff.2 h)]
    simp only [Checking.renumber, bind_of_ok h]
  | error v t =>
    rw [bind_of_error (renumber_of_error h)]
    simp only [Checking.renumber, bind_of_error h]

@[simp]
theorem renumber_atLine (f : Nat → Nat) (work : Resolving α) (line : Nat) :
    Checking.renumber f (work.atLine line) = work.atLine (f line) := by
  funext s
  simp only [Checking.renumber, Resolving.atLine]
  cases work s <;> rfl

end Work

/-! ## Methods -/

namespace MethodTable

variable (f : Nat → Nat) (t : MethodTable)

theorem get?_renumber (name : String) :
    (t.renumber f).get? name = (t.get? name).map (Method.renumber f) := by
  rw [get?, get?, renumber, List.find?_map]
  rfl

/-- A call does not depend on where methods stand. -/
theorem checkCall_renumber (c : Call) (s : Scopes) :
    (t.renumber f).checkCall c s = t.checkCall c s := by
  rw [checkCall, checkCall, get?_renumber]
  cases t.get? c.name <;> rfl

theorem register_renumber (header : MethodHeader) (line : Nat) :
    (t.renumber f).register header (f line) =
      (t.register header line).map (MethodTable.renumber f) := by
  unfold register Method.ofHeader
  rw [get?_renumber, Option.isSome_map]
  by_cases h : (t.get? header.name).isSome
  · rw [if_pos h, if_pos h]
    rfl
  · rw [if_neg h, if_neg h]
    cases Parameter.toVariables [] header.params with
    | error fault => rfl
    | ok params => simp [Except.map, push, renumber, Method.renumber]

end MethodTable

theorem resolve_renumber (f : Nat → Nat) (methods : MethodTable) (statement : Statement) :
    resolve (methods.renumber f) statement = resolve methods statement := by
  cases statement with
  | declaration d => rfl
  | assignment a => rfl
  | call c =>
    have hcall : (methods.renumber f).checkCall c = methods.checkCall c :=
      funext (methods.checkCall_renumber f c)
    rw [resolve, resolve, hcall]

/-! ## The sweep -/

theorem globalStatement_renumber (f : Nat → Nat) (line : Nat) (text : String) :
    globalStatement (f line) text = (globalStatement line text).renumber f := by
  unfold globalStatement
  rcases Statement.ofText? text with _ | d | a | c
  · rfl
  · dsimp only
    rw [← discard_atLine, ← discard_atLine, renumber_atLine]
  · rfl
  · rfl

theorem globalBlock_renumber (f : Nat → Nat) (line : Nat) (text : String) (methods : MethodTable) :
    globalBlock (f line) text (methods.renumber f) = Checking.renumber f (do
      let methods' ← globalBlock line text methods
      return methods'.renumber f) := by
  unfold globalBlock
  cases MethodHeader.ofText? text with
  | none => rfl
  | some header =>
    simp only [MethodTable.register_renumber]
    cases methods.register header line with
    | error fault => rfl
    | ok methods' => rfl

theorem surveyLine_renumber (f : Nat → Nat) (line : Nat) (text : String) (methods : MethodTable)
    (kind : LineKind) (depth : Nat) :
    surveyLine (f line) text (methods.renumber f) kind depth = Checking.renumber f (do
      let p ← surveyLine line text methods kind depth
      return p.renumber f) := by
  cases kind with
  | comment | blank | returnLine | blockClose => cases depth <;> rfl
  | statement =>
    cases depth with
    | zero =>
      simp only [surveyLine, globalStatement_renumber, renumber_bind, renumber_pure, bind_assoc,
        pure_bind]
      rfl
    | succ depth => rfl
  | blockOpen =>
    cases depth with
    | zero =>
      simp only [surveyLine, globalBlock_renumber, renumber_bind, renumber_pure, bind_assoc,
        pure_bind]
      rfl
    | succ depth => rfl

/-- **The sweep commutes with new numbers** for the lines it goes through. -/
theorem sweep_renumber {f : Nat → Nat} {texts : List String} {count count' : Nat}
    (hf : ∀ j < texts.length, f (count + j + 1) = count' + j + 1) (p : Progress) :
    sweep count' (p.renumber f) texts = Checking.renumber f (do
      let sw ← sweep count p texts
      return sw.renumber f) := by
  induction texts generalizing count count' p with
  | nil => rfl
  | cons text texts ih =>
    have hfirst : f (count + 1) = count' + 1 := hf 0 (by simp)
    have hrest : ∀ j < texts.length, f (count + 1 + j + 1) = count' + 1 + j + 1 := by
      intro j hj
      have hj' := hf (j + 1) (by simpa using hj)
      rwa [show count + 1 + j + 1 = count + (j + 1) + 1 by omega,
        show count' + 1 + j + 1 = count' + (j + 1) + 1 by omega]
    rw [sweep, sweep]
    cases LineKind.ofText? text with
    | none => simp only [fail_bind, renumber_fail, hfirst]
    | some kind =>
      have hline : surveyLine (count' + 1) text (p.renumber f).methods kind (p.renumber f).depth =
          Checking.renumber f (do
            let p' ← surveyLine (count + 1) text p.methods kind p.depth
            return p'.renumber f) := by
        rw [← hfirst]
        exact surveyLine_renumber f (count + 1) text p.methods kind p.depth
      simp only [hline, ih hrest, renumber_bind, renumber_pure, bind_assoc, pure_bind,
        Sweep.renumber, List.map_cons, Line.renumber, hfirst]
      rfl

theorem sweep_renumber_eq_ok_iff {f : Nat → Nat} {texts : List String} {count count' : Nat}
    (hf : ∀ j < texts.length, f (count + j + 1) = count' + j + 1) {p : Progress} {s s' : Scopes}
    {sw' : Sweep} :
    sweep count' (p.renumber f) texts s = .ok sw' s' ↔
      ∃ sw, sweep count p texts s = .ok sw s' ∧ sw' = sw.renumber f := by
  rw [sweep_renumber hf, renumber_eq_ok_iff, bind_eq_ok_iff]
  constructor
  · rintro ⟨sw, t, hsw, heq⟩
    cases heq
    exact ⟨sw, hsw, rfl⟩
  · rintro ⟨sw, hsw, rfl⟩
    exact ⟨sw, s', hsw, rfl⟩

/-! ## The walk -/

theorem checkStatement_renumber (f : Nat → Nat) (methods : MethodTable) (line : Line) :
    checkStatement (methods.renumber f) (line.renumber f) =
      (checkStatement methods line).renumber f := by
  unfold checkStatement Line.renumber
  cases Statement.ofText? line.text with
  | none => rfl
  | some statement =>
    dsimp only
    rw [resolve_renumber, renumber_atLine]

theorem checkBlock_renumber (f : Nat → Nat) (line : Line) :
    checkBlock (line.renumber f) = (checkBlock line).renumber f := by
  unfold checkBlock Line.renumber
  cases BlockHeader.ofText? line.text with
  | none => rfl
  | some header => simp only [renumber_bind, renumber_atLine, renumber_modify]

theorem receive_renumber (f : Nat → Nat) (line : Nat) (params : List Variable) :
    receive (f line) params = (receive line params).renumber f := by
  induction params with
  | nil => rfl
  | cons param params ih => simp only [receive, ih, renumber_bind, renumber_atLine]

/-- The second lines are, for a walk inside some number of blocks, like the
    first: up to the brace that closes the last of the blocks they are the same
    with new numbers, and perhaps more trivia. -/
inductive Alike (f : Nat → Nat) : Nat → List Line → List Line → Prop
  | nil {n : Nat} : Alike f n [] []
  | closed {lines lines' : List Line} : Alike f 0 lines lines'
  | plain {n : Nat} {line : Line} {lines lines' : List Line} (ho : line.kind ≠ .blockOpen)
    (hc : line.kind ≠ .blockClose) (h : Alike f (n + 1) lines lines') :
    Alike f (n + 1) (line :: lines) (line.renumber f :: lines')
  | opens {n : Nat} {line : Line} {lines lines' : List Line} (hk : line.kind = .blockOpen)
    (h : Alike f (n + 2) lines lines') : Alike f (n + 1) (line :: lines) (line.renumber f :: lines')
  | closes {n : Nat} {line : Line} {lines lines' : List Line} (hk : line.kind = .blockClose)
    (h : Alike f n lines lines') : Alike f (n + 1) (line :: lines) (line.renumber f :: lines')
  | trivia {n : Nat} {line : Line} {lines lines' : List Line}
    (hk : line.kind = .comment ∨ line.kind = .blank) (h : Alike f n lines lines') :
    Alike f n lines (line :: lines')

namespace Alike

variable {f : Nat → Nat} {n : Nat}

/-- The same line before lines that are alike, inside any number of blocks. -/
theorem cons (line : Line) {lines lines' : List Line} (h : ∀ m, Alike f m lines lines') :
    Alike f n (line :: lines) (line.renumber f :: lines') := by
  cases n with
  | zero => exact .closed
  | succ n =>
    by_cases ho : line.kind = .blockOpen
    · exact .opens ho (h (n + 2))
    · by_cases hc : line.kind = .blockClose
      · exact .closes hc (h n)
      · exact .plain ho hc (h (n + 1))

theorem append (before : List Line) {lines lines' : List Line} (h : ∀ m, Alike f m lines lines') :
    Alike f n (before ++ lines) (before.map (Line.renumber f) ++ lines') := by
  induction before generalizing n with
  | nil => exact h n
  | cons line before ih => exact .cons line fun m => ih

theorem map (lines : List Line) : Alike f n lines (lines.map (Line.renumber f)) := by
  have h : Alike f n (lines ++ []) (lines.map (Line.renumber f) ++ []) :=
    .append lines fun _ => .nil
  rwa [List.append_nil, List.append_nil] at h

/-- Lines that close all blocks are alike, whatever follows them. -/
theorem of_closed {lines : List Line}
    (h : n + lines.countP (·.kind == .blockOpen) = lines.countP (·.kind == .blockClose))
    (more more' : List Line) :
    Alike f n (lines ++ more) (lines.map (Line.renumber f) ++ more') := by
  induction lines generalizing n with
  | nil =>
    obtain rfl : n = 0 := h
    exact .closed
  | cons line lines ih =>
    cases n with
    | zero => exact .closed
    | succ n =>
      by_cases ho : line.kind = .blockOpen
      · rw [List.countP_cons_of_pos (by simp [ho]), List.countP_cons_of_neg (by simp [ho])] at h
        exact .opens ho (ih (by omega))
      · rw [List.countP_cons_of_neg (by simp [ho])] at h
        by_cases hc : line.kind = .blockClose
        · rw [List.countP_cons_of_pos (by simp [hc])] at h
          exact .closes hc (ih (by omega))
        · rw [List.countP_cons_of_neg (by simp [hc])] at h
          exact .plain ho hc (ih h)

/-- Among lines that close all blocks that they open, those after a header are
    alike, whatever follows them. -/
theorem of_header {lines : List Line} {k : Nat} {header : Line} (hk : lines[k]? = some header)
    (hkind : header.kind = .blockOpen)
    (hbefore : (lines.take k).countP (·.kind == .blockClose) =
      (lines.take k).countP (·.kind == .blockOpen))
    (hall : lines.countP (·.kind == .blockClose) = lines.countP (·.kind == .blockOpen))
    (more more' : List Line) :
    Alike f 1 (lines.drop (k + 1) ++ more)
      ((lines.drop (k + 1)).map (Line.renumber f) ++ more') := by
  have hsplit : lines = lines.take k ++ header :: lines.drop (k + 1) := by
    obtain ⟨hlt, rfl⟩ := List.getElem?_eq_some_iff.1 hk
    rw [List.getElem_cons_drop, List.take_append_drop]
  rw [hsplit, List.countP_append, List.countP_append, hbefore,
    List.countP_cons_of_neg (by simp [hkind]), List.countP_cons_of_pos (by simp [hkind])] at hall
  exact .of_closed (by omega) more more'

end Alike

/-- A walk through lines that are alike is the same, with new numbers. -/
theorem walk_of_alike {f : Nat → Nat} {n : Nat} {lines lines' : List Line}
    (h : Alike f n lines lines')
    (hn : 1 ≤ n) (methods : MethodTable) (name : String) (returned : Bool) :
    walk (methods.renumber f) name lines' n returned =
      (walk methods name lines n returned).renumber f := by
  induction h generalizing returned with
  | nil => rfl
  | closed => omega
  | @plain n line lines lines' ho hc h ih =>
    have hline : (line.renumber f).kind = line.kind := rfl
    rw [walk, walk, hline]
    cases hk : line.kind with
    | comment | blank | returnLine => exact ih hn _
    | statement => simp only [renumber_bind, checkStatement_renumber, ih hn]
    | blockOpen => exact absurd hk ho
    | blockClose => exact absurd hk hc
  | @opens n line lines lines' hk h ih =>
    have hline : (line.renumber f).kind = .blockOpen := hk
    rw [walk, walk, hline, hk]
    simp only [renumber_bind, checkBlock_renumber, ih (Nat.le_add_left 1 (n + 1))]
  | @closes n line lines lines' hk h ih =>
    have hline : (line.renumber f).kind = .blockClose := hk
    rw [walk, walk, hline, hk]
    dsimp only
    by_cases hmissing : n + 1 = 1 ∧ returned = false
    · rw [if_pos hmissing, if_pos hmissing, renumber_fail]
      rfl
    · rw [if_neg hmissing, if_neg hmissing]
      by_cases hlast : n + 1 = 1
      · simp only [hlast, ↓reduceIte, renumber_bind, renumber_modify, renumber_pure]
      · simp only [hlast, ↓reduceIte, renumber_bind, renumber_modify, Nat.add_sub_cancel]
        rw [ih (by omega)]
  | @trivia n line lines lines' hk h ih =>
    have hskip : ∀ methods, walk methods name (line :: lines') n returned =
        walk methods name lines' n returned := by
      intro methods
      rcases hk with hk | hk <;> simp only [walk, hk]
    rw [hskip, ih hn]

/-! ## Both passes -/

/-- The second survey is the first in new numbers: the methods have moved, and
    each of them finds lines that are alike. -/
structure Moved (f : Nat → Nat) (found found' : Survey) : Prop where
  methods : found'.methods = found.methods.renumber f
  alike : ∀ m ∈ found.methods.toList,
    Alike f 1 (found.lines.drop m.line) (found'.lines.drop (f m.line))

theorem walkMethod_of_alike {f : Nat → Nat} {found found' : Survey} {m : Method}
    (hm : found'.methods = found.methods.renumber f)
    (h : Alike f 1 (found.lines.drop m.line) (found'.lines.drop (f m.line))) :
    walkMethod found' (m.renumber f) = (walkMethod found m).renumber f := by
  have hwalk := walk_of_alike h (Nat.le_refl 1) found.methods m.name
  simp only [walkMethod, Method.renumber, hm, receive_renumber, hwalk, renumber_bind,
    renumber_modify]

theorem walkMethods_of_moved {f : Nat → Nat} {found found' : Survey} (h : Moved f found found')
    {ms : List Method} (hms : ∀ m ∈ ms, m ∈ found.methods.toList) :
    walkMethods found' (ms.map (Method.renumber f)) = (walkMethods found ms).renumber f := by
  induction ms with
  | nil => rfl
  | cons m ms ih =>
    have hwalk := walkMethod_of_alike h.methods (h.alike m (hms m (by simp)))
    rw [List.map_cons, walkMethods, walkMethods, hwalk, ih fun m' hm' => hms m' (by simp [hm']),
      renumber_bind]

/-- **Where two surveys correspond, so do the verdicts**: a violation is the
    same at its line's new number, and a program without violations has the same
    methods and global variables. -/
theorem checkLines_of_moved {f : Nat → Nat} {texts texts' : List String} {found found' : Survey}
    {g : Scopes} (h : Moved f found found') (hs : surveyAll texts .initial = .ok found g)
    (hs' : surveyAll texts' .initial = .ok found' g) :
    checkLines texts' = match checkLines texts with
      | .ok summary => .ok { summary with lines := texts'.length }
      | .error v => .error (v.renumber f) := by
  have hms : walkMethods found' found'.methods.toList =
      (walkMethods found found.methods.toList).renumber f := by
    rw [h.methods]
    exact walkMethods_of_moved h fun m hm => hm
  have hsize : found'.methods.size = found.methods.size := by
    rw [h.methods]
    exact List.length_map _
  rw [checkLines_of_surveyAll hs, checkLines_of_surveyAll hs', hsize]
  cases hw : walkMethods found found.methods.toList g with
  | ok u t =>
    have hw' : walkMethods found' found'.methods.toList g = .ok u t := by
      rw [hms, renumber_eq_ok_iff, hw]
    rw [hw']
  | error v t =>
    have hw' : walkMethods found' found'.methods.toList g = .error (v.renumber f) t := by
      rw [hms, renumber_of_error hw]
    rw [hw']

end LineCheck
