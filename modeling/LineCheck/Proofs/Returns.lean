import Mathlib.Data.List.TakeWhile
import LineCheck.Proofs.Nesting
import LineCheck.Proofs.StopLine

/-!
The return at the end of a method.

A walk remembers in one flag whether a return was met at the level of the method
with nothing after it. Returns inside blocks do not set the flag, and closing
braces do not clear it; but a block clears it when it opens, so that in a block
it is never set. When the closing brace of the method is reached, the flag
therefore tells whether the last line of the body, comments and blank lines
apart, is a return (`walk_eq_checkItems`). So the walk is a check of the lines
of the body, followed by this test (`walkMethod_eq_checkItems`).
-/

namespace LineCheck

/-! ## Bodies -/

/-- Whether a line has no effect. -/
def Line.isTrivia (line : Line) : Bool :=
  line.kind == .comment || line.kind == .blank

/-- The last of some lines that has an effect. -/
def lastItem? (lines : List Line) : Option Line :=
  (lines.filter fun line => !line.isTrivia).getLast?

/-- The lines between the header of a method and its closing brace. -/
def Survey.body (found : Survey) (m : Method) : List Line :=
  (found.lines.drop m.line).takeWhile fun line => !line.isClosing

/-- The blocks in some lines are closed in them: there are as many closing
    braces as headers, and from the first line on never more. -/
def Matched (lines : List Line) : Prop :=
  lines.countP (·.kind == .blockClose) = lines.countP (·.kind == .blockOpen) ∧
    ∀ k, (lines.take k).countP (·.kind == .blockClose) ≤
      (lines.take k).countP (·.kind == .blockOpen)

/-- The check of a line of a body by itself: a statement is carried out, the
    condition of a block is tested, and braces open and close scopes. -/
def checkItem (methods : MethodTable) (line : Line) : Checking Unit :=
  match line.kind with
  | .comment | .blank | .returnLine => pure ()
  | .statement => checkStatement methods line
  | .blockOpen => checkBlock line
  | .blockClose => modify Scopes.leave

/-- Checks lines of a body, one after the other. -/
def checkItems (methods : MethodTable) : List Line → Checking Unit
  | [] => return
  | line :: lines => do
    checkItem methods line
    checkItems methods lines

/-- The scopes at the first line of the body of a method: the parameters have
    been received. -/
def Method.opened (m : Method) (s : Scopes) : Scopes :=
  ⟨⟨.method, m.params.map Variable.received⟩, s.toList⟩

section Items

variable {line : Line} {lines : List Line}

theorem lastItem?_cons_of_isTrivia (h : line.isTrivia = true) (lines : List Line) :
    lastItem? (line :: lines) = lastItem? lines := by
  simp [lastItem?, h]

theorem lastItem?_cons (h : line.isTrivia = false) (lines : List Line) :
    lastItem? (line :: lines) = some ((lastItem? lines).getD line) := by
  simp [lastItem?, h, List.getLast?_cons]

theorem exists_of_lastItem?_eq_some (h : lastItem? lines = some line) :
    ∃ before after, lines = before ++ line :: after ∧ lastItem? after = none := by
  induction lines with
  | nil => cases h
  | cons first lines ih =>
    by_cases hfirst : first.isTrivia = true
    · rw [lastItem?_cons_of_isTrivia hfirst] at h
      obtain ⟨before, after, rfl, hafter⟩ := ih h
      exact ⟨first :: before, after, rfl, hafter⟩
    · rw [lastItem?_cons (by simpa using hfirst)] at h
      cases hlast : lastItem? lines with
      | none =>
        rw [hlast] at h
        cases h
        exact ⟨[], lines, rfl, hlast⟩
      | some last =>
        rw [hlast] at h
        obtain ⟨before, after, rfl, hafter⟩ := ih (hlast.trans h)
        exact ⟨first :: before, after, rfl, hafter⟩

theorem isClosing_eq_true_iff :
    line.isClosing = true ↔ line.kind = .blockClose ∧ line.depth = 1 := by
  simp [Line.isClosing]

theorem isClosing_of_mem_body {found : Survey} {m : Method} (h : line ∈ found.body m) :
    line.isClosing = false := by
  simpa using List.all_eq_true.1 List.all_takeWhile line h

theorem mem_lines_of_mem_body {found : Survey} {m : Method} (h : line ∈ found.body m) :
    line ∈ found.lines :=
  List.mem_of_mem_drop ((List.takeWhile_prefix _).subset h)

end Items

/-! ## Depths -/

namespace Nested

variable {n : Nat} {body after : List Line} {closing : Line}

/-- Inside a method its closing brace is still to come. -/
theorem exists_closing {lines : List Line} (h : Nested n lines) (hn : 1 ≤ n) :
    ∃ closing, lines.find? Line.isClosing = some closing := by
  induction h with
  | nil => omega
  | @plain d line lines ho hc hd _ ih =>
    rw [find?_isClosing_cons fun hk => absurd hk hc]
    exact ih hn
  | @opens d line lines hk hd _ ih =>
    rw [find?_isClosing_cons (by simp [hk])]
    exact ih (Nat.le_add_left 1 d)
  | @closes d line lines hk hd _ ih =>
    by_cases hzero : d = 0
    · exact ⟨line, List.find?_cons_of_pos (by simp [Line.isClosing, hk, hd, hzero])⟩
    · rw [find?_isClosing_cons fun _ => by omega]
      exact ih (by omega)

/-- Up to the closing brace of a method, fewer blocks are closed than were open
    or are opened. -/
theorem closes_lt (h : Nested n (body ++ after)) (hn : 1 ≤ n)
    (hbody : ∀ line ∈ body, line.isClosing = false) :
    body.countP (·.kind == .blockClose) < n + body.countP (·.kind == .blockOpen) := by
  induction body generalizing n with
  | nil =>
    simp
    omega
  | cons line body ih =>
    rw [List.forall_mem_cons] at hbody
    rw [List.cons_append] at h
    cases h with
    | plain ho hc hd h => simpa [ho, hc] using ih h hn hbody.2
    | opens hk hd h =>
      have := ih h (Nat.le_add_left 1 n) hbody.2
      simp only [List.countP_cons, hk]
      simp
      omega
    | @closes d _ _ hk hd h =>
      have hd' : d ≠ 0 := by simpa [Line.isClosing, hk, hd] using hbody.1
      have := ih h (by omega) hbody.2
      simp only [List.countP_cons, hk]
      simp
      omega

/-- The closing brace of a method matches its header. -/
theorem matched (h : Nested 1 (body ++ closing :: after)) (hclosing : closing.isClosing = true)
    (hbody : ∀ line ∈ body, line.isClosing = false) : Matched body := by
  constructor
  · obtain ⟨-, hdepth⟩ := isClosing_eq_true_iff.1 hclosing
    have hat : (body ++ closing :: after)[body.length]? = some closing := by simp
    have hcount := h.depth_add_closes hat
    rw [List.take_left] at hcount
    omega
  · intro k
    rw [← List.take_append_drop k body, List.append_assoc] at h
    have := h.closes_lt (Nat.le_refl 1) fun line hline => hbody line (List.mem_of_mem_take hline)
    omega

/-- Lines without effect before the closing brace of a method are at the level
    of the method. -/
theorem eq_one_of_lastItem?_eq_none (h : Nested n (body ++ closing :: after))
    (hclosing : closing.isClosing = true) (hbody : lastItem? body = none) : n = 1 := by
  induction body with
  | nil =>
    rw [← h.depth_eq, (isClosing_eq_true_iff.1 hclosing).2]
  | cons line body ih =>
    by_cases htrivia : line.isTrivia = true
    · rw [lastItem?_cons_of_isTrivia htrivia] at hbody
      simp only [Line.isTrivia, Bool.or_eq_true, beq_iff_eq] at htrivia
      refine ih (h.of_plain ?_ ?_) hbody
      · rcases htrivia with hk | hk <;> simp [hk]
      · rcases htrivia with hk | hk <;> simp [hk]
    · rw [lastItem?_cons (by simpa using htrivia)] at hbody
      cases hbody

/-- A return that is the last item of a body stands at the level of the method. -/
theorem depth_of_lastItem? {line : Line} (h : Nested n (body ++ closing :: after))
    (hclosing : closing.isClosing = true) (hlast : lastItem? body = some line)
    (hk : line.kind = .returnLine) : line.depth = 1 := by
  obtain ⟨before, trivia, rfl, htrivia⟩ := exists_of_lastItem?_eq_some hlast
  have hline : (before ++ line :: trivia ++ closing :: after)[before.length]? = some line := by simp
  have hdrop := h.drop hline
  have hlines : (before ++ line :: trivia ++ closing :: after).drop before.length =
      line :: (trivia ++ closing :: after) := by simp
  rw [hlines] at hdrop
  exact (hdrop.of_plain (by simp [hk]) (by simp [hk])).eq_one_of_lastItem?_eq_none hclosing htrivia

end Nested

/-! ## The flag -/

/-- What the flag of a walk is behind some lines: it tells of the last item
    whether it is a return, and it is as before if there is none. -/
def flagAfter (returned : Bool) (lines : List Line) : Bool :=
  (lastItem? lines).elim returned (·.kind == .returnLine)

theorem flagAfter_cons_of_isTrivia {line : Line} (h : line.isTrivia = true) (returned : Bool)
    (lines : List Line) : flagAfter returned (line :: lines) = flagAfter returned lines := by
  rw [flagAfter, lastItem?_cons_of_isTrivia h, flagAfter]

theorem flagAfter_cons {line : Line} (h : line.isTrivia = false) (returned : Bool)
    (lines : List Line) :
    flagAfter returned (line :: lines) = flagAfter (line.kind == .returnLine) lines := by
  rw [flagAfter, lastItem?_cons h, flagAfter]
  cases lastItem? lines <;> rfl

theorem flagAfter_false_eq_true_iff {lines : List Line} : flagAfter false lines = true ↔
    ∃ line, lastItem? lines = some line ∧ line.kind = .returnLine := by
  cases h : lastItem? lines <;> simp [flagAfter, h]

/-- A return marks the method at its level, and in a block it does not matter:
    the brace that closes the block is a later item. -/
theorem flagAfter_return {n : Nat} {body after : List Line} {closing : Line}
    (h : Nested n (body ++ closing :: after)) (hclosing : closing.isClosing = true)
    (returned : Bool) :
    flagAfter (returned || n == 1) body = flagAfter true body := by
  by_cases hn : n = 1
  · simp [hn]
  · cases hlast : lastItem? body with
    | none => exact absurd (h.eq_one_of_lastItem?_eq_none hclosing hlast) hn
    | some line => simp [flagAfter, hlast]

/-- **A walk is a check of the lines up to the closing brace of the method, and
    then of the last of them.** The flag must not be set inside a block. -/
theorem walk_eq_checkItems (methods : MethodTable) (name : String) {body after : List Line}
    {closing : Line} (hclosing : closing.isClosing = true)
    (hbody : ∀ line ∈ body, line.isClosing = false) {n : Nat}
    (hnested : Nested n (body ++ closing :: after)) {returned : Bool}
    (hreturned : n ≠ 1 → returned = false) :
    walk methods name (body ++ closing :: after) n returned = (do
      checkItems methods body
      if flagAfter returned body then modify Scopes.leave
      else .fail closing.number (.missingReturn name)) := by
  induction body generalizing n returned with
  | nil =>
    obtain ⟨hk, hd⟩ := isClosing_eq_true_iff.1 hclosing
    obtain rfl : n = 1 := by rw [← hnested.depth_eq, hd]
    cases returned <;> simp [walk, hk, checkItems, flagAfter, lastItem?]
  | cons line body ih =>
    rw [List.forall_mem_cons] at hbody
    have hdepth : line.depth = n := hnested.depth_eq
    rw [List.cons_append, walk, checkItems, checkItem]
    cases hk : line.kind with
    | comment | blank =>
      have htrivia : line.isTrivia = true := by simp [Line.isTrivia, hk]
      simp only [pure_bind, flagAfter_cons_of_isTrivia htrivia]
      exact ih hbody.2 (hnested.of_plain (by simp [hk]) (by simp [hk])) hreturned
    | returnLine =>
      have hrest : Nested n (body ++ closing :: after) :=
        hnested.of_plain (by simp [hk]) (by simp [hk])
      have hmark : n ≠ 1 → (returned || n == 1) = false := fun hn => by simp [hreturned hn, hn]
      have hitem : line.isTrivia = false := by simp [Line.isTrivia, hk]
      simp only [pure_bind, hdepth, flagAfter_cons hitem, hk]
      rw [ih hbody.2 hrest hmark, flagAfter_return hrest hclosing]
      rfl
    | statement =>
      have hrest : Nested n (body ++ closing :: after) :=
        hnested.of_plain (by simp [hk]) (by simp [hk])
      have hitem : line.isTrivia = false := by simp [Line.isTrivia, hk]
      simp only [ih hbody.2 hrest fun _ => rfl, bind_assoc, flagAfter_cons hitem, hk]
      rfl
    | blockOpen =>
      have hitem : line.isTrivia = false := by simp [Line.isTrivia, hk]
      simp only [ih hbody.2 (hnested.of_opens hk) fun _ => rfl, bind_assoc, flagAfter_cons hitem,
        hk]
      rfl
    | blockClose =>
      -- the brace closes a block, in which the flag is not set
      have hn : n ≠ 1 := by
        rintro rfl
        simp [Line.isClosing, hk, hdepth] at hbody
      have hitem : line.isTrivia = false := by simp [Line.isTrivia, hk]
      obtain ⟨outer, rfl⟩ : ∃ outer, n = outer + 1 := by
        cases hnested with
        | plain _ hc => exact absurd hk hc
        | opens ho => simp [hk] at ho
        | closes => exact ⟨_, rfl⟩
      simp only [hn, false_and, if_false, Nat.add_sub_cancel, hreturned hn,
        ih hbody.2 (hnested.of_closes hk) fun _ => rfl, bind_assoc, flagAfter_cons hitem, hk]
      rfl

/-! ## Walks through methods -/

theorem receive_eq_ok (line : Nat) {params : List Variable} {s : Scopes}
    (h : (s.current.vars.map Variable.name ++ params.map Variable.name).Nodup) :
    receive line params s =
      .ok () ⟨⟨s.current.kind, s.current.vars ++ params.map Variable.received⟩, s.outer⟩ := by
  induction params generalizing s with
  | nil => simp [receive]
  | cons param params ih =>
    have hfree : s.current.get? param.received.name = none := by
      refine Scope.get?_eq_none_iff.2 fun v hv heq => ?_
      rw [List.nodup_append] at h
      exact h.2.2 v.name (List.mem_map_of_mem hv) param.name (by simp) heq
    have hdefine : (Resolving.update (·.define param.received)).atLine line s =
        .ok () (s.push param.received) :=
      atLine_eq_ok_iff.2 (Resolving.update_eq_ok_iff.2 (Scopes.define_eq_ok_iff.2 ⟨hfree, rfl⟩))
    rw [receive, bind_of_ok hdefine, ih]
    · simp [Scopes.push, Scope.push]
    · simpa [Scopes.push, Scope.push, Variable.received] using h

namespace SurveySpec

variable {texts : List String} {found : Survey} {m : Method}

/-- A method begins with its header. -/
theorem exists_eq_header (h : SurveySpec 0 ⟨0, .empty⟩ texts found)
    (hm : m ∈ found.methods.toList) :
    ∃ before header, found.lines = before ++ header :: found.lines.drop m.line ∧
      header.number = m.line ∧ header.kind = .blockOpen := by
  obtain ⟨k, header, hline, hk, hkind, -, -⟩ := h.exists_header hm
  have hnumber := h.number k header hk
  have hdrop : found.lines.drop k = header :: found.lines.drop m.line := by
    rw [hline, List.drop_eq_getElem?_toList_append, hk]
    rfl
  refine ⟨found.lines.take k, header, ?_, by omega, hkind⟩
  rw [← hdrop, List.take_append_drop]

/-- What follows the header of a method is its body, its closing brace, and the
    rest of the program. -/
theorem exists_drop_eq (h : SurveySpec 0 ⟨0, .empty⟩ texts found) (hm : m ∈ found.methods.toList) :
    ∃ closing after, found.closing? m = some closing ∧ closing.isClosing = true ∧
      found.lines.drop m.line = found.body m ++ closing :: after := by
  obtain ⟨closing, hclosing⟩ := (h.nested_drop hm).exists_closing (Nat.le_refl 1)
  have hhead := hclosing
  rw [List.find?_eq_head?_dropWhile_not] at hhead
  obtain ⟨after, hafter⟩ := List.head?_eq_some_iff.1 hhead
  refine ⟨closing, after, hclosing, List.find?_some hclosing, ?_⟩
  rw [Survey.body, ← hafter, List.takeWhile_append_dropWhile]

/-- **The walk through a method is a check of its body, and then of the last
    item.** -/
theorem walkMethod_eq_checkItems (h : SurveySpec 0 ⟨0, .empty⟩ texts found)
    (hm : m ∈ found.methods.toList) {closing : Line} (hclosing : found.closing? m = some closing)
    (s : Scopes) :
    walkMethod found m s = (do
      checkItems found.methods (found.body m)
      if flagAfter false (found.body m) then modify Scopes.leave
      else Checking.fail closing.number (.missingReturn m.name)) (m.opened s) := by
  obtain ⟨closing', after, hclosing', his, hdrop⟩ := h.exists_drop_eq hm
  obtain rfl : closing' = closing := Option.some.inj (hclosing'.symm.trans hclosing)
  have hnested := h.nested_drop hm
  have hreceive : receive m.line m.params (s.enter .method) = .ok () (m.opened s) :=
    receive_eq_ok m.line (h.nodup_params hm)
  rw [walkMethod, bind_of_ok (modify_apply _ _), bind_of_ok hreceive]
  rw [hdrop] at hnested ⊢
  rw [walk_eq_checkItems _ _ his (fun _ => isClosing_of_mem_body) hnested fun _ => rfl]

/-- Lines are known by their numbers. -/
theorem eq_of_number_eq (h : SurveySpec 0 ⟨0, .empty⟩ texts found) {line line' : Line}
    (hline : line ∈ found.lines) (hline' : line' ∈ found.lines) (heq : line.number = line'.number) :
    line = line' := by
  obtain ⟨k, hk⟩ := List.mem_iff_getElem?.1 hline
  obtain ⟨k', hk'⟩ := List.mem_iff_getElem?.1 hline'
  have hnumber := h.number k line hk
  have hnumber' := h.number k' line' hk'
  obtain rfl : k = k' := by omega
  exact Option.some.inj (hk.symm.trans hk')

end SurveySpec

/-- A check of lines fails at one of them, and not at a closing brace. -/
theorem exists_line_of_checkItems_eq_error {methods : MethodTable} {lines : List Line}
    {s t : Scopes} {v : Violation} (h : checkItems methods lines s = .error v t) :
    ∃ line ∈ lines, v.line = line.number ∧ line.kind ≠ .blockClose := by
  induction lines generalizing s with
  | nil => cases h
  | cons line lines ih =>
    rcases bind_eq_error_iff.1 h with h | ⟨u, s', -, h⟩
    · refine ⟨line, by simp, ?_⟩
      rw [checkItem] at h
      cases hk : line.kind with
      | comment | blank | returnLine | blockClose =>
        simp only [hk] at h
        cases h
      | statement =>
        simp only [hk] at h
        exact ⟨line_of_statementAt_eq_error h, nofun⟩
      | blockOpen =>
        simp only [hk] at h
        exact ⟨line_of_checkBlock_eq_error h, nofun⟩
    · obtain ⟨later, hmem, hline⟩ := ih h
      exact ⟨later, by simp [hmem], hline⟩

/-- **A method must end in a return.** In a program that the survey accepts,
    what follows the header of a method is its body and the brace that matches
    the header. If the lines of the body pass their own checks, then the walk
    through the method reports a missing return exactly if the last of them,
    comments and blank lines apart, is not a return, or there is none; it then
    names the method and the line of its closing brace, and there is nothing
    else that it can report. No walk stops at the closing brace of a block
    inside the method, and one that succeeds has met a return outside such
    blocks. -/
theorem missingReturn_iff_last_item {texts : List String} {found : Survey} {g : Scopes} {m : Method}
    (h : surveyAll texts .initial = .ok found g) (hm : m ∈ found.methods.toList) (s : Scopes) :
    ∃ before header closing after,
      (found.lines = before ++ header :: found.lines.drop m.line ∧ header.number = m.line ∧
        header.kind = .blockOpen) ∧
      (found.lines.drop m.line = found.body m ++ closing :: after ∧ closing.kind = .blockClose ∧
        Matched (found.body m)) ∧
      (∀ t, checkItems found.methods (found.body m) (m.opened s) = .ok () t →
        ((∃ v t' name, walkMethod found m s = .error v t' ∧ v.fault = .missingReturn name) ↔
          ¬∃ line, lastItem? (found.body m) = some line ∧ line.kind = .returnLine) ∧
        ∀ v t', walkMethod found m s = .error v t' → v = ⟨closing.number, .missingReturn m.name⟩) ∧
      (∀ v t, walkMethod found m s = .error v t →
        ∀ line ∈ found.body m, line.kind = .blockClose → v.line ≠ line.number) ∧
      ∀ t, walkMethod found m s = .ok () t →
        ∃ line, lastItem? (found.body m) = some line ∧ line.kind = .returnLine ∧
          line.depth = 1 := by
  have hspec : SurveySpec 0 ⟨0, .empty⟩ texts found := surveySpec h
  obtain ⟨before, header, hheader⟩ := hspec.exists_eq_header hm
  obtain ⟨closing, after, hclosing, his, hdrop⟩ := hspec.exists_drop_eq hm
  have hnested := hspec.nested_drop hm
  rw [hdrop] at hnested
  have hk : closing.kind = .blockClose := (isClosing_eq_true_iff.1 his).1
  have hmatched : Matched (found.body m) := hnested.matched his fun _ => isClosing_of_mem_body
  refine ⟨before, header, closing, after, hheader, ⟨hdrop, hk, hmatched⟩, ?_, ?_, ?_⟩
  · intro t ht
    rw [hspec.walkMethod_eq_checkItems hm hclosing s, bind_of_ok ht, ← flagAfter_false_eq_true_iff]
    by_cases hflag : flagAfter false (found.body m) = true
    · rw [if_pos hflag]
      refine ⟨⟨?_, fun hne => absurd hflag hne⟩, fun v t' hv => nomatch hv⟩
      rintro ⟨v, t', name, hv, -⟩
      cases hv
    · rw [if_neg hflag]
      refine ⟨⟨fun _ => hflag, fun _ => ⟨_, _, _, rfl, rfl⟩⟩, fun v t' hv => ?_⟩
      cases hv
      rfl
  · intro v t hv line hline hbrace heq
    rw [hspec.walkMethod_eq_checkItems hm hclosing s] at hv
    rcases bind_eq_error_iff.1 hv with hv | ⟨u, t', -, hv⟩
    · obtain ⟨line', hline', hnumber, hne⟩ := exists_line_of_checkItems_eq_error hv
      obtain rfl : line' = line := hspec.eq_of_number_eq (mem_lines_of_mem_body hline')
        (mem_lines_of_mem_body hline) (hnumber.symm.trans heq)
      exact hne hbrace
    · split at hv
      · cases hv
      · cases hv
        have hmem : closing ∈ found.lines.drop m.line := by simp [hdrop]
        obtain rfl : closing = line :=
          hspec.eq_of_number_eq (List.mem_of_mem_drop hmem) (mem_lines_of_mem_body hline) heq
        simp [isClosing_of_mem_body hline] at his
  · intro t ht
    rw [hspec.walkMethod_eq_checkItems hm hclosing s] at ht
    obtain ⟨u, t', -, ht⟩ := bind_eq_ok_iff.1 ht
    split at ht
    · rename_i hflag
      obtain ⟨line, hlast, hreturn⟩ := flagAfter_false_eq_true_iff.1 hflag
      exact ⟨line, hlast, hreturn, hnested.depth_of_lastItem? his hlast hreturn⟩
    · cases ht

/-- A return in a block at the end of a method is not enough. -/
theorem missingReturn_of_return_in_block :
    ∃ found t, surveyAll ["void f() \x7b", "if (true) \x7b", "return;", "\x7d", "\x7d"] .initial =
        .ok found .initial ∧
      walkMethod found ⟨"f", [], 1⟩ .initial = .error ⟨5, .missingReturn "f"⟩ t := by
  have hsurvey : surveyAll ["void f() \x7b", "if (true) \x7b", "return;", "\x7d", "\x7d"] .initial =
      .ok ⟨[⟨1, "void f() \x7b", 0, .blockOpen⟩, ⟨2, "if (true) \x7b", 1, .blockOpen⟩,
        ⟨3, "return;", 2, .returnLine⟩, ⟨4, "\x7d", 2, .blockClose⟩, ⟨5, "\x7d", 1, .blockClose⟩],
        ⟨[⟨"f", [], 1⟩]⟩⟩ .initial := by decide +kernel
  obtain ⟨-, -, closing, after, -, ⟨hdrop, -⟩, hmissing, -⟩ :=
    missingReturn_iff_last_item hsurvey (List.mem_singleton.2 rfl) .initial
  obtain ⟨hiff, heq⟩ := hmissing ⟨⟨.method, []⟩, [⟨.global, []⟩]⟩ (by decide +kernel)
  obtain ⟨v, t, name, hv, -⟩ := hiff.2 (by decide +kernel)
  have hclosing : closing.number = 5 := by
    simp [Survey.body, Line.isClosing] at hdrop
    simp [← hdrop.1]
  rw [heq v t hv, hclosing] at hv
  exact ⟨_, t, hsurvey, hv⟩

end LineCheck
