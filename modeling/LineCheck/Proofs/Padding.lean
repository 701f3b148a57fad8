import Mathlib.Data.List.Forall2
import Mathlib.Data.List.TakeWhile
import LineCheck.Proofs.Kinds
import LineCheck.Proofs.Nesting

/-!
Gaps at the ends of lines, and line ends.

The check reads four things of a line: its kind, and the statement, the method
header and the block header that it may be. Lines with the same reading can
stand for each other (`checkProgram_of_sameReading`). Gaps at the ends do not
change the reading (`Padded.sameReading`): kinds and block headers are told from
the trimmed text, and the scanner reads the same token before a gap as before
the end (`Token.next?_append`), although a string looks ahead for the place
where it ends. A carriage return before a newline is such a gap, so it does not
matter how lines end (`Text.padded_lines_withReturns`).
-/

namespace LineCheck

/-! ## Trimmed texts -/

/-- Of what follows a text, nothing is dropped if something of the text remains,
    and all otherwise. -/
theorem dropWhile_append_of_forall {p : Char → Bool} {gap : List Char}
    (hgap : ∀ c ∈ gap, p c = true) (text : List Char) :
    (text ++ gap).dropWhile p = if text.dropWhile p = [] then [] else text.dropWhile p ++ gap := by
  simp only [List.dropWhile_append, List.dropWhile_eq_nil_iff.2 hgap, List.isEmpty_iff]

namespace Text

variable {gap gap' : List Char}

theorem trimEnd_append_gap (hgap : ∀ c ∈ gap, isBlank c = true) (text : List Char) :
    trimEnd (text ++ gap) = trimEnd text := by
  have hreverse : ∀ c ∈ gap.reverse, isBlank c = true := fun c hc => hgap c (List.mem_reverse.1 hc)
  rw [trimEnd, trimEnd, List.reverse_append, List.dropWhile_append_of_pos hreverse]

theorem trim_append (hgap : ∀ c ∈ gap, Token.isGap c = true)
    (hgap' : ∀ c ∈ gap', Token.isGap c = true) (text : List Char) :
    trim (gap ++ text ++ gap') = trim text := by
  have hblank : ∀ c ∈ gap, isBlank c = true := fun c hc => isBlank_of_isGap (hgap c hc)
  have hblank' : ∀ c ∈ gap', isBlank c = true := fun c hc => isBlank_of_isGap (hgap' c hc)
  rw [trim, trim, trimStart, trimStart, List.append_assoc, List.dropWhile_append_of_pos hblank,
    dropWhile_append_of_forall hblank']
  by_cases htext : text.dropWhile isBlank = []
  · rw [if_pos htext, htext]
  · rw [if_neg htext, trimEnd_append_gap hblank']

/-- Only blanks follow the character that a trimmed text ends with. -/
theorem exists_eq_of_getLast?_trim {text : List Char} {c : Char}
    (h : (trim text).getLast? = some c) :
    ∃ front gap, text = front ++ c :: gap ∧ ∀ g ∈ gap, isBlank g = true := by
  obtain ⟨body, hbody⟩ := List.getLast?_eq_some_iff.1 h
  obtain ⟨gap, gap', htext, -, hblank⟩ := exists_eq_append_trim text
  refine ⟨gap ++ body, gap', ?_, hblank⟩
  rw [htext, hbody]
  simp

end Text

/-! ## Kinds -/

/-- The second text is the first with gaps before and after it; before a
    comment, and before a semicolon that stands alone, there are none. -/
def Padded (text text' : String) : Prop :=
  ∃ before after, text'.toList = before ++ text.toList ++ after ∧
    (∀ c ∈ before, Token.isGap c = true) ∧ (∀ c ∈ after, Token.isGap c = true) ∧
    ("//".toList <+: text.toList ∨ Text.trimEnd text.toList = [';'] → before = [])

theorem Padded.refl (text : String) : Padded text text :=
  ⟨[], [], by simp, by simp, by simp, fun _ => rfl⟩

namespace LineKind

variable {before after text : List Char}

/-- Gaps make no comment, and those after a comment unmake none. -/
theorem isPrefixOf_slashes (hbefore : ∀ c ∈ before, Token.isGap c = true)
    (hafter : ∀ c ∈ after, Token.isGap c = true) (hcomment : "//".toList <+: text → before = []) :
    "//".toList.isPrefixOf (before ++ text ++ after) = "//".toList.isPrefixOf text := by
  have hslash : ∀ c ∈ "//".toList, c ∉ after := by
    intro c hc hmem
    obtain rfl : c = '/' := by simpa using hc
    exact absurd (hafter _ hmem) (by decide)
  rw [← List.isSome_isPrefixOf?_eq_isPrefixOf, Cutting.isPrefixOf?_append hslash,
    Option.isSome_map, List.isSome_isPrefixOf?_eq_isPrefixOf]
  cases before with
  | nil => rfl
  | cons g before =>
    have hg : '/' ≠ g := by
      rintro rfl
      exact absurd (hbefore _ List.mem_cons_self) (by decide)
    have hgap : "//".toList.isPrefixOf (g :: (before ++ text)) = false := by
      simp [List.isPrefixOf, hg]
    have htext : "//".toList.isPrefixOf text = false := by
      refine Bool.eq_false_iff.2 fun hslashes => ?_
      exact absurd (hcomment (List.isPrefixOf_iff_prefix.1 hslashes)) (List.cons_ne_nil _ _)
    rw [List.cons_append, hgap, htext]

/-- Gaps before a semicolon count as something before it, so it must not have
    stood alone. -/
theorem length_trimEnd_append (hafter : ∀ c ∈ after, Token.isGap c = true)
    (halone : Text.trimEnd text = [';'] → before = [])
    (hlast : (Text.trim text).getLast? = some ';') :
    1 < (Text.trimEnd (before ++ text ++ after)).length ↔ 1 < (Text.trimEnd text).length := by
  obtain ⟨front, gap, rfl, hgap⟩ := Text.exists_eq_of_getLast?_trim hlast
  have hafter' : ∀ c ∈ after, Text.isBlank c = true :=
    fun c hc => Text.isBlank_of_isGap (hafter c hc)
  rw [Text.trimEnd_append_gap hafter', ← List.append_assoc, Text.trimEnd_append hgap (by decide),
    Text.trimEnd_append hgap (by decide)]
  rw [Text.trimEnd_append hgap (by decide)] at halone
  by_cases hfront : front = []
  · rw [halone (by simp [hfront]), List.nil_append]
  · have hpos : 0 < front.length := List.length_pos_iff.2 hfront
    simp only [List.length_append, List.length_singleton]
    omega

/-- **Gaps at the ends do not change the kind of a line**, if none stand before
    a comment or before a semicolon alone. -/
theorem ofChars?_append (hbefore : ∀ c ∈ before, Token.isGap c = true)
    (hafter : ∀ c ∈ after, Token.isGap c = true)
    (halone : "//".toList <+: text ∨ Text.trimEnd text = [';'] → before = []) :
    ofChars? (before ++ text ++ after) = ofChars? text := by
  have hcomment := isPrefixOf_slashes hbefore hafter fun h => halone (.inl h)
  unfold ofChars?
  rw [hcomment, Text.trim_append hbefore hafter]
  by_cases hlast : (Text.trim text).getLast? = some ';'
  · simp only [length_trimEnd_append hafter (fun h => halone (.inr h)) hlast]
  · simp only [hlast, false_and]

end LineKind

/-! ## Tokens -/

namespace Token

variable {gap : List Char}

theorem span_append_gap {p : Char → Bool} (hgap : ∀ c ∈ gap, p c = false) (text : List Char) :
    (text ++ gap).takeWhile p = text.takeWhile p ∧
      (text ++ gap).dropWhile p = text.dropWhile p ++ gap := by
  induction text with
  | nil =>
    cases gap with
    | nil => simp
    | cons g gap => simp [hgap g List.mem_cons_self]
  | cons c text ih =>
    by_cases hc : p c = true
    · simp [hc, ih]
    · simp [hc]

variable (hgap : ∀ c ∈ gap, isGap c = true)

include hgap

theorem startsApart_gap : StartsApart gap := by
  cases gap with
  | nil => exact startsApart_nil
  | cons g gap => exact startsApart_cons (hgap g List.mem_cons_self) gap

theorem word?_append (c : Char) (text : List Char) :
    word? c (text ++ gap) = (word? c text).map (Prod.map id (· ++ gap)) := by
  obtain ⟨htake, hdrop⟩ := span_append_gap (fun c hc => isWordPart_of_isGap (hgap c hc)) text
  unfold word?
  rw [htake, hdrop]
  split <;> rfl

theorem span_digits_append (text : List Char) :
    (text ++ gap).takeWhile Char.isDigit = text.takeWhile Char.isDigit ∧
      (text ++ gap).dropWhile Char.isDigit = text.dropWhile Char.isDigit ++ gap :=
  span_append_gap (fun c hc => isDigit_of_isGap (hgap c hc)) text

theorem fraction?_append (text : List Char) :
    fraction? (text ++ gap) = (fraction? text).map (Prod.map id (· ++ gap)) := by
  cases text with
  | nil => exact fraction?_of_endsWord (startsApart_gap hgap).endsWord
  | cons c text =>
    by_cases hc : c = '.'
    · subst hc
      cases text with
      | nil =>
        cases gap with
        | nil => rfl
        | cons g gap => simp [fraction?, isDigit_of_isGap (hgap g List.mem_cons_self)]
      | cons d text =>
        obtain ⟨htake, hdrop⟩ := span_digits_append hgap text
        simp only [List.cons_append, fraction?, htake, hdrop]
        split <;> rfl
    · simp [fraction?, hc]

theorem number?_append (sign text : List Char) :
    number? sign (text ++ gap) = (number? sign text).map (Prod.map id (· ++ gap)) := by
  cases text with
  | nil =>
    cases gap with
    | nil => rfl
    | cons g gap => simp [number?, isDigit_of_isGap (hgap g List.mem_cons_self)]
  | cons d text =>
    obtain ⟨htake, hdrop⟩ := span_digits_append hgap text
    simp only [List.cons_append, number?, htake, hdrop, fraction?_append hgap]
    by_cases hd : d.isDigit = true
    · rw [if_pos hd, if_pos hd]
      cases fraction? (text.dropWhile Char.isDigit) <;> rfl
    · rw [if_neg hd, if_neg hd, Option.map_none]

theorem followsOperand_append (text : List Char) :
    followsOperand (text ++ gap) = followsOperand text := by
  unfold followsOperand Text.trimStart
  rw [dropWhile_append_of_forall fun c hc => Text.isBlank_of_isGap (hgap c hc)]
  cases text.dropWhile Text.isBlank <;> rfl

theorem cutAtQuote_append {closes : List Char → Bool}
    (hcloses : ∀ text, closes (text ++ gap) = closes text) (text : List Char) :
    cutAtQuote closes (text ++ gap) = (cutAtQuote closes text).map (Prod.map id (· ++ gap)) := by
  induction text with
  | nil =>
    refine Option.eq_none_iff_forall_ne_some.2 ?_
    rintro ⟨body, rest⟩ hcut
    have hquote : quote ∈ gap := by simp [show gap = _ from eq_of_cutAtQuote hcut]
    exact absurd (hgap _ hquote) (by decide)
  | cons c text ih =>
    rw [List.cons_append, cutAtQuote, cutAtQuote, hcloses, ih]
    split
    · rfl
    · cases cutAtQuote closes text <;> rfl

theorem string?_append (text : List Char) :
    string? (text ++ gap) = (string? text).map (Prod.map id (· ++ gap)) := by
  unfold string?
  rw [cutAtQuote_append hgap (followsOperand_append hgap), cutAtQuote_append hgap fun _ => rfl]
  cases cutAtQuote followsOperand text with
  | some cut => rfl
  | none => cases cutAtQuote (fun _ => true) text <;> rfl

theorem char?_append (text : List Char) :
    char? (text ++ gap) = (char? text).map (Prod.map id (· ++ gap)) := by
  have hclose : ∀ {g : Char}, g ∈ gap → g ≠ apostrophe := by
    rintro g hg rfl
    exact absurd (hgap _ hg) (by decide)
  rcases text with _ | ⟨c, _ | ⟨close, rest⟩⟩
  · rcases gap with _ | ⟨g, _ | ⟨g', gap⟩⟩
    · rfl
    · rfl
    · simp [char?, hclose]
  · cases gap with
    | nil => rfl
    | cons g gap => simp [char?, hclose]
  · simp only [List.cons_append, char?]
    split <;> rfl

theorem symbol?_append (text : List Char) :
    symbol? (text ++ gap) = (symbol? text).map (Prod.map id (· ++ gap)) := by
  have hafter : ∀ s : Symbol,
      s.text.toList.isPrefixOf? (text ++ gap) =
        (s.text.toList.isPrefixOf? text).map (· ++ gap) := by
    refine fun s => Cutting.isPrefixOf?_append (fun c hc hmem => ?_) text
    have hblank : Text.isBlank c = true := Text.isBlank_of_isGap (hgap c hmem)
    exact absurd hblank (by simp [isBlank_of_mem_symbol hc])
  simp only [symbol?, hafter, List.map_findSome?, Option.map_map, Function.comp_def, Prod.map, id]

/-- **Before a gap the same token is read as before the end**, and the gap is left. -/
theorem next?_append (text : List Char) :
    next? (text ++ gap) = (next? text).map (Prod.map id (· ++ gap)) := by
  cases text with
  | nil =>
    cases gap with
    | nil => rfl
    | cons g gap => exact next?_of_isGap (hgap g List.mem_cons_self) gap
  | cons c text =>
    -- the first character decides what is read, and it is not in the gap
    simp only [List.cons_append, next?]
    split_ifs
    · exact word?_append hgap c text
    · exact number?_append hgap [] (c :: text)
    · exact number?_append hgap ['-'] text
    · exact string?_append hgap text
    · exact char?_append hgap text
    · exact symbol?_append hgap (c :: text)

/-- Gaps after a text have no tokens. -/
theorem scan_append_gap (text : List Char) : scan (text ++ gap) = scan text := by
  have hdrop := dropWhile_append_of_forall hgap
  fun_induction scan text with
  | case1 text t rest hnext ih =>
    have hne : text.dropWhile isGap ≠ [] := by
      intro hnil
      rw [hnil] at hnext
      cases hnext
    have hnext' : next? ((text ++ gap).dropWhile isGap) = some (t, rest ++ gap) := by
      rw [hdrop, if_neg hne, next?_append hgap, hnext]
      rfl
    -- the gap is still there behind the rest, which is shorter
    rw [scan_of_next?_eq_some hnext', ih]
  | case2 text hnext hall =>
    refine scan_eq_nil_iff.2 fun c hc => ?_
    rcases List.mem_append.1 hc with hc | hc
    · exact List.all_eq_true.1 hall c hc
    · exact hgap c hc
  | case3 text hnext hall =>
    have hne : text.dropWhile isGap ≠ [] := by
      rwa [ne_eq, List.dropWhile_eq_nil_iff, ← List.all_eq_true]
    have hnext' : next? ((text ++ gap).dropWhile isGap) = none := by
      rw [hdrop, if_neg hne, next?_append hgap, hnext]
      rfl
    rw [scan_of_next?_eq_none hnext', List.all_append, if_neg (by simp [hall])]

end Token

/-! ## Readings -/

/-- The check reads the same of both texts. -/
structure SameReading (text text' : String) : Prop where
  kind : LineKind.ofText? text' = LineKind.ofText? text
  statement : Statement.ofText? text' = Statement.ofText? text
  methodHeader : MethodHeader.ofText? text' = MethodHeader.ofText? text
  blockHeader : BlockHeader.ofText? text' = BlockHeader.ofText? text

/-- **Gaps at the ends do not change what is read.** -/
theorem Padded.sameReading {text text' : String} (h : Padded text text') :
    SameReading text text' := by
  obtain ⟨before, after, htext, hbefore, hafter, halone⟩ := h
  have htokens : tokenize text' = tokenize text := by
    rw [tokenize, tokenize, htext, List.append_assoc, Token.scan_gap_append hbefore,
      Token.scan_append_gap hafter]
  have htrim : Text.trim text'.toList = Text.trim text.toList := by
    rw [htext, Text.trim_append hbefore hafter]
  constructor
  · rw [LineKind.ofText?, LineKind.ofText?, htext, LineKind.ofChars?_append hbefore hafter halone]
  · rw [Statement.ofText?, Statement.ofText?, htokens]
  · rw [MethodHeader.ofText?, MethodHeader.ofText?, htokens]
  · rw [BlockHeader.ofText?, BlockHeader.ofText?, htrim]

/-! ## Checks -/

/-- A line with another text. -/
def Line.retext (line : Line) (text : String) : Line :=
  { line with text }

section

variable {text text' : String} {line : Line}

theorem surveyLine_of_sameReading (h : SameReading text text') (number : Nat)
    (methods : MethodTable) (kind : LineKind) (depth : Nat) :
    surveyLine number text' methods kind depth = surveyLine number text methods kind depth := by
  have hstatement : globalStatement number text' = globalStatement number text := by
    rw [globalStatement, globalStatement, h.statement]
  have hblock : globalBlock number text' methods = globalBlock number text methods := by
    rw [globalBlock, globalBlock, h.methodHeader]
  unfold surveyLine
  rw [hstatement, hblock]

theorem checkStatement_retext (h : SameReading line.text text) (methods : MethodTable) :
    checkStatement methods (line.retext text) = checkStatement methods line := by
  rw [checkStatement, checkStatement, Line.retext, h.statement]

theorem checkBlock_retext (h : SameReading line.text text) :
    checkBlock (line.retext text) = checkBlock line := by
  rw [checkBlock, checkBlock, Line.retext, h.blockHeader]

end

/-- A survey finds the same, but for the texts of the lines. -/
theorem survey_of_sameReading {texts texts' : List String}
    (h : List.Forall₂ SameReading texts texts') (count : Nat) (p : Progress) :
    survey count p texts' = (do
      let found ← survey count p texts
      return ⟨List.zipWith Line.retext found.lines texts', found.methods⟩) := by
  induction h generalizing count p with
  | nil =>
    unfold survey
    split <;> rfl
  | @cons text text' texts texts' htext _ ih =>
    unfold survey
    rw [htext.kind]
    cases LineKind.ofText? text with
    | none => rfl
    | some kind =>
      simp only [surveyLine_of_sameReading htext, ih, bind_assoc, pure_bind]
      rfl

theorem walk_retext {lines : List Line} {texts : List String}
    (h : List.Forall₂ (fun line text => SameReading line.text text) lines texts)
    (methods : MethodTable) (method : String) (nesting : Nat) (returned : Bool) :
    walk methods method (List.zipWith Line.retext lines texts) nesting returned =
      walk methods method lines nesting returned := by
  induction h generalizing nesting returned with
  | nil => rfl
  | @cons line text lines texts htext _ ih =>
    have hkind : (line.retext text).kind = line.kind := rfl
    have hdepth : (line.retext text).depth = line.depth := rfl
    have hnumber : (line.retext text).number = line.number := rfl
    rw [List.zipWith_cons_cons, walk, walk, hkind, hdepth, hnumber, checkStatement_retext htext,
      checkBlock_retext htext]
    simp only [ih]

theorem walkMethods_retext {found : Survey} {texts : List String}
    (h : List.Forall₂ (fun line text => SameReading line.text text) found.lines texts)
    (ms : List Method) :
    walkMethods ⟨List.zipWith Line.retext found.lines texts, found.methods⟩ ms =
      walkMethods found ms := by
  induction ms with
  | nil => rfl
  | cons m ms ih =>
    rw [walkMethods, walkMethods, ih, walkMethod, walkMethod, List.drop_zipWith,
      walk_retext (List.forall₂_drop m.line h)]

/-- **Lines with the same reading can stand for each other.** -/
theorem checkProgram_of_sameReading {texts texts' : List String}
    (h : List.Forall₂ SameReading texts texts') : checkProgram texts' = checkProgram texts := by
  funext s
  have hsurvey := congrFun (survey_of_sameReading h 0 ⟨0, .empty⟩) s
  cases hfound : surveyAll texts s with
  | error v s' =>
    have hfound' : surveyAll texts' s = .error v s' := hsurvey.trans (bind_of_error hfound)
    rw [checkProgram, checkProgram, bind_of_error hfound, bind_of_error hfound']
  | ok found s' =>
    have hfound' : surveyAll texts' s =
        .ok ⟨List.zipWith Line.retext found.lines texts', found.methods⟩ s' :=
      hsurvey.trans (bind_of_ok hfound)
    -- the lines that the survey finds have the given texts, so each has the
    -- reading of its new text
    have htext : found.lines.map Line.text = texts := (surveySpec hfound).text
    have hlines :
        List.Forall₂ (fun line text => SameReading line.text text) found.lines texts' := by
      rw [← htext] at h
      exact List.forall₂_map_left_iff.1 h
    have hlength : (List.zipWith Line.retext found.lines texts').length = found.lines.length := by
      rw [List.length_zipWith, hlines.length_eq, Nat.min_self]
    rw [checkProgram, checkProgram, bind_of_ok hfound, bind_of_ok hfound',
      walkMethods_retext hlines, hlength]

/-! ## Line ends -/

namespace Text

/-- A text with a carriage return before every newline. -/
def withReturns (source : String) : String :=
  String.ofList (source.toList.flatMap fun c => if c = '\n' then ['\r', '\n'] else [c])

/-- The runs with a carriage return after each but the last. -/
def addReturns : List (List Char) → List (List Char)
  | [] => []
  | [last] => [last]
  | run :: next :: runs => (run ++ ['\r']) :: addReturns (next :: runs)

theorem addReturns_modifyHead (c : Char) (runs : List (List Char)) :
    addReturns (runs.modifyHead (c :: ·)) = (addReturns runs).modifyHead (c :: ·) := by
  rcases runs with _ | ⟨run, _ | ⟨next, runs⟩⟩ <;> rfl

theorem splitOn_flatMap_return (text : List Char) :
    (text.flatMap fun c => if c = '\n' then ['\r', '\n'] else [c]).splitOn '\n' =
      addReturns (text.splitOn '\n') := by
  induction text with
  | nil => rfl
  | cons c text ih =>
    rw [List.flatMap_cons, List.splitOn_cons_eq_if_modifyHead]
    simp only [beq_iff_eq]
    by_cases hc : c = '\n'
    · obtain ⟨run, runs, hruns⟩ := List.exists_cons_of_ne_nil (List.splitOn_ne_nil '\n' text)
      rw [if_pos hc, if_pos hc, hruns, addReturns, ← hruns, ← ih]
      have hreturn : '\n' ∉ ['\r'] := by decide
      exact List.splitOn_append_cons_self_of_not_mem hreturn _
    · rw [if_neg hc, if_neg hc, List.singleton_append, List.splitOn_cons_eq_if_modifyHead, ih]
      simp only [beq_iff_eq]
      rw [if_neg hc, addReturns_modifyHead]

/-- A run loses at most a carriage return, which is a gap. -/
theorem padded_dropReturn (run : List Char) :
    Padded (String.ofList (dropReturn run)) (String.ofList run) := by
  cases hrun : ['\r'].isSuffixOf? run with
  | none => exact ⟨[], [], by simp [dropReturn, hrun], by simp, by simp, fun _ => rfl⟩
  | some front =>
    refine ⟨[], ['\r'], ?_, by simp, by simp [Token.isGap], fun _ => rfl⟩
    rw [dropReturn, hrun, Option.getD_some, ← List.append_eq_of_isSuffixOf?_eq_some hrun]
    simp

theorem dropReturn_append_return (run : List Char) : dropReturn (run ++ ['\r']) = run := by
  rw [dropReturn, List.isSuffixOf?_eq_some_iff_append_eq.2 rfl, Option.getD_some]

theorem padded_linesOfRuns (runs : List (List Char)) :
    List.Forall₂ Padded ((linesOfRuns runs).map String.ofList)
      ((linesOfRuns (addReturns runs)).map String.ofList) := by
  fun_induction addReturns runs with
  | case1 => exact .nil
  | case2 last => exact List.forall₂_same.2 fun text _ => Padded.refl text
  | case3 run next runs ih =>
    obtain ⟨first, rest, hrest⟩ : ∃ first rest, addReturns (next :: runs) = first :: rest := by
      cases runs <;> exact ⟨_, _, rfl⟩
    rw [hrest] at ih ⊢
    rw [linesOfRuns, linesOfRuns, List.map_cons, List.map_cons, dropReturn_append_return]
    exact .cons (padded_dropReturn run) ih

/-- **Other line ends only add gaps to lines.** -/
theorem padded_lines_withReturns (source : String) :
    List.Forall₂ Padded (lines source) (lines (withReturns source)) := by
  rw [lines, lines, withReturns, String.toList_ofList, splitOn_flatMap_return]
  exact padded_linesOfRuns _

end Text

theorem checkLines_of_forall₂_padded {lines lines' : List String}
    (h : List.Forall₂ Padded lines lines') : checkLines lines' = checkLines lines := by
  rw [checkLines, checkLines, checkProgram_of_sameReading (h.imp fun _ _ => Padded.sameReading)]

/-- **Gaps at the ends of lines never matter, nor does the way lines end.** -/
theorem check_of_padded_or_returned :
    (∀ lines lines' : List String, List.Forall₂ Padded lines lines' →
      checkLines lines' = checkLines lines) ∧
    ∀ source : String, checkSource (Text.withReturns source) = checkSource source :=
  ⟨fun _ _ => checkLines_of_forall₂_padded,
    fun source => checkLines_of_forall₂_padded (Text.padded_lines_withReturns source)⟩

/-- A string that ends at the end of its line, with gaps after it; a method in
    other columns; and an error, with its line, in a text with other line
    ends. -/
theorem check_of_indented_method_and_returned_text :
    checkLines ["\tString s = \x22;\x22; \r\x0c", "//", " void f() \x7b", "return;\t", "\r\x7d "] =
      .ok ⟨5, 1, 1⟩ ∧
    checkSource (Text.withReturns "int a;\n\nint a;\n") = .error ⟨3, .duplicateVariable "a"⟩ := by
  have hpadded : List.Forall₂ Padded
      ["String s = \x22;\x22;", "//", "void f() \x7b", "return;", "\x7d"]
      ["\tString s = \x22;\x22; \r\x0c", "//", " void f() \x7b", "return;\t", "\r\x7d "] := by
    refine .cons ⟨['\t'], [' ', '\r', '\x0c'], by decide, ?_, ?_, by decide⟩ <|
      .cons (Padded.refl "//") <| .cons ⟨[' '], [], by decide, ?_, ?_, by decide⟩ <|
        .cons ⟨[], ['\t'], by decide, ?_, ?_, by decide⟩ <|
          .cons ⟨['\r'], [' '], by decide, ?_, ?_, by decide⟩ .nil
    all_goals simp [Token.isGap]
  exact ⟨(check_of_padded_or_returned.1 _ _ hpadded).trans (by decide +kernel),
    (check_of_padded_or_returned.2 _).trans (by decide +kernel)⟩

end LineCheck
