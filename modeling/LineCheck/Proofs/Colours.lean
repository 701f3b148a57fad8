import LineCheck.Diagnostic.Rendering
import LineCheck.Proofs.Cutting

/-!
Colours change no text.

With colours, a styled run stands between two control sequences. `Style.erase`
deletes the control sequences of styles from a text, and what it leaves of a
styled text with colours is the text without them (`StyledText.erase_render`),
where the runs hold no escape characters of their own. The runs of a diagnostic
hold its texts and fixed ones (`Diagnostic.isUnescaped_layout`), so this is true
of diagnostics (`Diagnostic.erase_rendering`).
-/

namespace LineCheck

/-! ## Control sequences -/

namespace Style

/-- Whether a character may stand between the bracket and the `m` of a control
    sequence. -/
def isParameter (c : Char) : Bool :=
  c.isDigit || c == ';'

/-- What follows the control sequence at the start of a text, if it is one of a
    style: the escape character, a bracket, digits and semicolons, and the
    letter `m`. -/
def afterSequence? (text : List Char) : Option (List Char) := do
  let parameters ← ['\x1b', '['].isPrefixOf? text
  ['m'].isPrefixOf? (parameters.dropWhile isParameter)

theorem afterSequence?_eq_some_iff {text rest : List Char} :
    afterSequence? text = some rest ↔
      ∃ params, (∀ c ∈ params, isParameter c = true) ∧
        text = '\x1b' :: '[' :: (params ++ 'm' :: rest) := by
  simp only [afterSequence?, Option.bind_eq_bind, Option.bind_eq_some_iff,
    List.isPrefixOf?_eq_some_iff_append_eq]
  constructor
  · rintro ⟨parameters, rfl, hrest⟩
    refine ⟨parameters.takeWhile isParameter, List.all_eq_true.1 List.all_takeWhile, ?_⟩
    have hparameters := List.takeWhile_append_dropWhile (p := isParameter) (l := parameters)
    rw [← hrest] at hparameters
    exact congrArg (['\x1b', '['] ++ ·) hparameters.symm
  · rintro ⟨params, hparams, rfl⟩
    refine ⟨params ++ 'm' :: rest, rfl, ?_⟩
    rw [List.dropWhile_append_of_pos hparams, List.dropWhile_cons_of_neg (by decide)]
    rfl

theorem length_lt_of_afterSequence? {text rest : List Char} (h : afterSequence? text = some rest) :
    rest.length < text.length := by
  obtain ⟨params, -, rfl⟩ := afterSequence?_eq_some_iff.1 h
  simp only [List.length_cons, List.length_append]
  omega

/-- A text without the control sequences of styles in it. All else stays. -/
def erase (text : List Char) : List Char :=
  match _ : afterSequence? text with
  | some rest => erase rest
  | none =>
    match text with
    | [] => []
    | c :: text => c :: erase text
termination_by text.length
decreasing_by
  · exact length_lt_of_afterSequence? ‹_›
  · exact Nat.lt_succ_self _

theorem erase_nil : erase [] = [] := by
  rw [erase]
  rfl

theorem erase_of_afterSequence? {text rest : List Char} (h : afterSequence? text = some rest) :
    erase text = erase rest := by
  rw [erase]
  split <;> simp_all

theorem erase_cons {c : Char} {text : List Char} (h : afterSequence? (c :: text) = none) :
    erase (c :: text) = c :: erase text := by
  rw [erase]
  split <;> simp_all

theorem erase_append_of_not_mem {text : List Char} (h : '\x1b' ∉ text) (rest : List Char) :
    erase (text ++ rest) = text ++ erase rest := by
  induction text with
  | nil => rfl
  | cons c text ih =>
    rw [List.mem_cons, not_or] at h
    have hnone : afterSequence? (c :: (text ++ rest)) = none := by
      refine Option.eq_none_iff_forall_ne_some.2 fun rest' hrest' => ?_
      obtain ⟨params, -, heq⟩ := afterSequence?_eq_some_iff.1 hrest'
      exact h.1 (List.cons.inj heq).1.symm
    rw [List.cons_append, erase_cons hnone, ih h.2, List.cons_append]

/-- A sequence that is not one of a style stays. -/
example : erase "\x1b[1;31ma\x1b[2Kb\x1b[m".toList = "a\x1b[2Kb".toList := by
  decide +kernel

theorem isDigit_of_mem_toString {n : Nat} {c : Char} (h : c ∈ (toString n).toList) :
    c.isDigit = true := by
  rw [Nat.toString_eq_repr, Nat.toList_repr] at h
  exact Nat.isDigit_of_mem_toDigits (by decide) (by decide) h

/-- The parameters of a style are written with digits and semicolons. -/
theorem isParameter_of_mem_intercalate {parameters : List Nat} {c : Char}
    (h : c ∈ (";".intercalate (parameters.map toString)).toList) : isParameter c = true := by
  rw [String.toList_intercalate, List.map_map] at h
  rcases Cutting.eq_or_exists_of_mem_intercalate h with rfl | ⟨digits, hdigits, hc⟩
  · decide
  · obtain ⟨n, -, rfl⟩ := List.mem_map.1 hdigits
    rw [isParameter, isDigit_of_mem_toString hc, Bool.true_or]

theorem erase_begin_append (s : Style) (rest : List Char) :
    erase (s.begin.toList ++ rest) = erase rest := by
  have hbegin : s.begin.toList ++ rest = '\x1b' :: '[' ::
      ((";".intercalate (s.parameters.map toString)).toList ++ 'm' :: rest) := by
    simp [begin]
  apply erase_of_afterSequence?
  exact afterSequence?_eq_some_iff.2 ⟨_, fun c hc => isParameter_of_mem_intercalate hc, hbegin⟩

theorem erase_reset_append (rest : List Char) : erase (reset.toList ++ rest) = erase rest := by
  apply erase_of_afterSequence?
  exact afterSequence?_eq_some_iff.2 ⟨['0'], by simp [isParameter], rfl⟩

end Style

/-! ## Styled texts -/

namespace StyledText

/-- No run holds an escape character. -/
def IsUnescaped (text : StyledText) : Prop :=
  ∀ run ∈ text, '\x1b' ∉ run.text.toList

@[simp]
theorem isUnescaped_plain {text : String} : (plain text).IsUnescaped ↔ '\x1b' ∉ text.toList := by
  simp [IsUnescaped, plain]

@[simp]
theorem isUnescaped_styled {style : Style} {text : String} :
    (styled style text).IsUnescaped ↔ '\x1b' ∉ text.toList := by
  simp [IsUnescaped, styled]

@[simp]
theorem isUnescaped_append {text text' : StyledText} :
    IsUnescaped (text ++ text') ↔ text.IsUnescaped ∧ text'.IsUnescaped :=
  List.forall_mem_append

theorem isUnescaped_flatMap {α : Type} {items : List α} {rows : α → StyledText}
    (h : ∀ item ∈ items, (rows item).IsUnescaped) : IsUnescaped (items.flatMap rows) := by
  intro run hrun
  obtain ⟨item, hitem, hrow⟩ := List.mem_flatMap.1 hrun
  exact h item hitem run hrow

theorem erase_renderRun_append {run : Run} (h : '\x1b' ∉ run.text.toList) (rest : List Char) :
    Style.erase ((renderRun true run).toList ++ rest) =
      (renderRun false run).toList ++ Style.erase rest := by
  obtain ⟨style, text⟩ := run
  cases style with
  | none => exact Style.erase_append_of_not_mem h rest
  | some style =>
    have hcolored : (renderRun true ⟨some style, text⟩).toList ++ rest =
        style.begin.toList ++ (text.toList ++ (Style.reset.toList ++ rest)) := by
      simp [renderRun, Style.resume_of_not_mem style h]
    rw [hcolored, Style.erase_begin_append, Style.erase_append_of_not_mem h,
      Style.erase_reset_append]
    rfl

theorem toList_render_cons (colors : Bool) (run : Run) (text : StyledText) :
    (render colors (run :: text)).toList =
      (renderRun colors run).toList ++ (render colors text).toList := by
  simp [render, String.toList_join]

/-- **Colours change no text.** Without the control sequences, it is the text
    without colours. -/
theorem erase_render {text : StyledText} (h : text.IsUnescaped) :
    Style.erase (text.render true).toList = (text.render false).toList := by
  induction text with
  | nil => exact Style.erase_nil
  | cons run text ih =>
    have hrun : '\x1b' ∉ run.text.toList := h run List.mem_cons_self
    have htext : IsUnescaped text := fun run' hrun' => h run' (List.mem_cons_of_mem _ hrun')
    rw [toList_render_cons, toList_render_cons, erase_renderRun_append hrun, ih htext]

@[simp]
theorem render_plain (colors : Bool) (text : String) : render colors (plain text) = text := by
  simp [render, plain, renderRun]

@[simp]
theorem render_false_styled (style : Style) (text : String) :
    render false (styled style text) = text := by
  simp [render, styled, renderRun]

theorem render_append (colors : Bool) (text text' : StyledText) :
    render colors (text ++ text') = render colors text ++ render colors text' := by
  rw [render, List.map_append, String.join_append]
  rfl

theorem render_flatMap {α : Type} (colors : Bool) (items : List α) (rows : α → StyledText) :
    render colors (items.flatMap rows) =
      String.join (items.map fun item => render colors (rows item)) := by
  induction items with
  | nil => rfl
  | cons item items ih => rw [List.flatMap_cons, render_append, ih, List.map_cons, String.join_cons]

end StyledText

/-! ## Diagnostics -/

namespace Diagnostic

open StyledText

/-- The texts that a diagnostic is made of. -/
def texts (d : Diagnostic) : List String :=
  d.message :: d.notes ++ d.suggestions.flatMap fun s => s.message :: s.replacement.toList

theorem mem_texts {d : Diagnostic} {text : String} :
    text ∈ d.texts ↔ text = d.message ∨ text ∈ d.notes ∨
      ∃ s ∈ d.suggestions, text = s.message ∨ text ∈ s.replacement := by
  simp [texts]

theorem isUnescaped_lineRow (line : Option Nat) : (lineRow line).IsUnescaped := by
  cases line with
  | none => exact nofun
  | some line =>
    have hline : '\x1b' ∉ s!" line {line}\n".toList := by
      simp only [String.toList_append, List.mem_append, not_or]
      refine ⟨⟨by decide, fun hmem => ?_⟩, by decide⟩
      exact absurd (Style.isDigit_of_mem_toString hmem) (by decide)
    simp only [lineRow, isUnescaped_append, isUnescaped_plain, isUnescaped_styled]
    exact ⟨⟨by decide, by decide⟩, hline⟩

theorem isUnescaped_noteRow {note : String} (h : '\x1b' ∉ note.toList) :
    (noteRow note).IsUnescaped := by
  simp [noteRow, h]

theorem isUnescaped_suggestionRows {s : Suggestion} (hmessage : '\x1b' ∉ s.message.toList)
    (hreplacement : ∀ text ∈ s.replacement, '\x1b' ∉ text.toList) :
    (suggestionRows s).IsUnescaped := by
  obtain ⟨message, replacement⟩ := s
  cases replacement with
  | none => simp [suggestionRows, hmessage]
  | some replacement => simp [suggestionRows, hmessage, hreplacement]

theorem isUnescaped_layout {d : Diagnostic} (h : ∀ text ∈ d.texts, '\x1b' ∉ text.toList) :
    d.layout.IsUnescaped := by
  have hmessage : '\x1b' ∉ d.message.toList := h d.message (mem_texts.2 (.inl rfl))
  have hnotes : IsUnescaped (d.notes.flatMap noteRow) := by
    refine isUnescaped_flatMap fun note hnote => isUnescaped_noteRow (h note ?_)
    exact mem_texts.2 (.inr (.inl hnote))
  have hsuggestions : IsUnescaped (d.suggestions.flatMap suggestionRows) := by
    refine isUnescaped_flatMap fun s hs =>
      isUnescaped_suggestionRows (h _ ?_) fun text htext => h text ?_
    · exact mem_texts.2 (.inr (.inr ⟨s, hs, .inl rfl⟩))
    · exact mem_texts.2 (.inr (.inr ⟨s, hs, .inr htext⟩))
  simp [layout, hmessage, isUnescaped_lineRow, hnotes, hsuggestions]

/-- A diagnostic as plain text. -/
def plainText (d : Diagnostic) : String :=
  "error: " ++ d.message ++ "\n"
    ++ (match d.line with
      | some line => "  --> line " ++ toString line ++ "\n"
      | none => "")
    ++ String.join (d.notes.map fun note => "  = note: " ++ note ++ "\n")
    ++ String.join (d.suggestions.map fun s => "  = help: " ++ s.message ++ "\n" ++
      match s.replacement with
      | some replacement => "        try: " ++ replacement ++ "\n"
      | none => "")

theorem render_lineRow (line : Nat) :
    render false (lineRow (some line)) = "  --> line " ++ toString line ++ "\n" := by
  apply String.toList_injective
  simp only [lineRow, render_append, render_plain, render_false_styled, String.toList_append,
    List.append_assoc]
  rfl

theorem render_noteRow (note : String) :
    render false (noteRow note) = "  = note: " ++ note ++ "\n" := by
  apply String.toList_injective
  simp [noteRow, render_append]

theorem render_suggestionRows (s : Suggestion) :
    render false (suggestionRows s) = "  = help: " ++ s.message ++ "\n" ++
      match s.replacement with
      | some replacement => "        try: " ++ replacement ++ "\n"
      | none => "" := by
  obtain ⟨message, replacement⟩ := s
  apply String.toList_injective
  cases replacement with
  | none => simp [suggestionRows, render_append]
  | some replacement => simp [suggestionRows, render_append]

/-- Without colours, the rows of a diagnostic are written one after the other. -/
theorem rendering_false (d : Diagnostic) : d.rendering false = d.plainText := by
  have htitle : render false (styled .boldRed "error" ++ plain ": " ++ styled .bold d.message ++
      plain "\n") = "error: " ++ d.message ++ "\n" := by
    apply String.toList_injective
    simp [render_append]
  rw [rendering, layout, render_append, render_append, render_append, htitle, render_flatMap,
    render_flatMap, plainText]
  simp only [render_noteRow, render_suggestionRows]
  cases d.line with
  | none => rfl
  | some line => rw [render_lineRow]

/-- **Colours change no text of a diagnostic.** Where its texts hold no escape
    characters, what is left with colours when the control sequences of styles
    are deleted is what is written without colours, row by row. -/
theorem erase_rendering (d : Diagnostic) (h : ∀ text ∈ d.texts, '\x1b' ∉ text.toList) :
    String.ofList (Style.erase (d.rendering true).toList) = d.rendering false ∧
      d.rendering false = d.plainText := by
  refine ⟨?_, rendering_false d⟩
  rw [rendering, erase_render (isUnescaped_layout h), String.ofList_toList]
  rfl

/-- Texts that hold brackets, digits, line ends and an `m`, and an empty one. -/
theorem erase_rendering_of_brackets :
    String.ofList (Style.erase
        (rendering ⟨"[0m", some 12, ["[1;\n31m", ""], [⟨"m", some "[m"⟩]⟩ true).toList) =
      "error: [0m\n  --> line 12\n  = note: [1;\n31m\n  = note: \n  = help: m\n        try: [m\n" := by
  obtain ⟨herase, hplain⟩ := erase_rendering ⟨"[0m", some 12, ["[1;\n31m", ""], [⟨"m", some "[m"⟩]⟩
    (by decide +kernel)
  exact herase.trans (hplain.trans (by decide +kernel))

end Diagnostic

end LineCheck
