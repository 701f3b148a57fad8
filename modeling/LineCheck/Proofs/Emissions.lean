import LineCheck.Failure
import LineCheck.Proofs.LineSpans
import LineCheck.Proofs.Locality

/-!
What is emitted for the violations that a check finds.

A check stops at one of the lines of its source (`line_of_checkLines_eq_error`).
A snippet is emitted for a diagnostic that names a line with a span
(`Diagnostic.emission_eq_snippet_iff`), and a line has one, which holds its
bytes. So every violation is shown with a label on its line
(`emission_of_checkSource_eq_error`).
-/

namespace LineCheck

/-! ## The lines of violations -/

/-- A method fails at its header or at a line behind it. -/
theorem exists_line_of_walkMethod_eq_error {texts : List String} {found : Survey}
    (hspec : SurveySpec 0 ⟨0, .empty⟩ texts found) {m : Method} (hm : m ∈ found.methods.toList)
    {s t : Scopes} {v : Violation} (h : walkMethod found m s = .error v t) :
    ∃ line ∈ found.lines, v.line = line.number := by
  rcases bind_eq_error_iff.1 h with h | ⟨u, t', -, h⟩
  · cases h
  · rcases bind_eq_error_iff.1 h with h | ⟨u', t'', -, h⟩
    · obtain ⟨k, header, hline, hk, -⟩ := hspec.exists_header hm
      have hnumber := hspec.number k header hk
      refine ⟨header, List.mem_of_getElem? hk, ?_⟩
      rw [line_of_receive_eq_error h]
      omega
    · obtain ⟨line, hmem, hline⟩ := exists_line_of_walk_eq_error h
      exact ⟨line, List.mem_of_mem_drop hmem, hline⟩

/-- **A check stops at one of the lines.** -/
theorem line_of_checkLines_eq_error {texts : List String} {v : Violation}
    (h : checkLines texts = .error v) : 1 ≤ v.line ∧ v.line ≤ texts.length := by
  cases hs : surveyAll texts .initial with
  | error v' t =>
    obtain rfl : v' = v := by simpa [checkLines_of_surveyAll_eq_error hs] using h
    obtain ⟨hle, hlt⟩ := line_of_survey_eq_error hs
    simp only [ne_eq, not_true_eq_false, and_false, or_false] at hlt
    exact ⟨hlt, by omega⟩
  | ok found g =>
    have hspec := surveySpec hs
    obtain ⟨t, hw⟩ := (checkLines_eq_error_iff_of_surveyAll hs).1 h
    obtain ⟨before, m, after, s, hms, -, hm⟩ := walkMethods_eq_error_iff.1 hw
    obtain ⟨line, hmem, hline⟩ := exists_line_of_walkMethod_eq_error hspec (by simp [hms]) hm
    obtain ⟨k, hk⟩ := List.mem_iff_getElem?.1 hmem
    obtain ⟨hlt, -⟩ := List.getElem?_eq_some_iff.1 hk
    have hnumber := hspec.number k line hk
    rw [length_lines_of_surveyAll hs] at hlt
    omega

/-! ## Snippets -/

/-- **A snippet is emitted iff the diagnostic names a line that has a span**,
    and the label is on that span. -/
theorem Diagnostic.emission_eq_snippet_iff {d : Diagnostic} {source : String} {s : Snippet} :
    d.emission source = .snippet s ↔
      ∃ line span, d.line = some line ∧ Text.lineSpan? source line = some span ∧
        s = ⟨source, d.message, span.start, span, s!"line {line}", d.notes.head?,
          d.suggestions.head?.map Suggestion.text⟩ := by
  have hsnippet : d.emission source = .snippet s ↔ d.snippet? source = some s := by
    unfold emission
    cases d.snippet? source <;> simp
  rw [hsnippet]
  constructor
  · intro h
    obtain ⟨line, hline, h⟩ := Option.bind_eq_some_iff.1 h
    obtain ⟨span, hspan, h⟩ := Option.bind_eq_some_iff.1 h
    exact ⟨line, span, hline, hspan, (Option.some.inj h).symm⟩
  · rintro ⟨line, span, hline, hspan, rfl⟩
    simp [snippet?, hline, hspan]

theorem diagnostic_illegal (v : Violation) (path : Option String) :
    (Failure.illegal v).diagnostic path =
      ⟨v.fault.message, some v.line, v.fault.notes ++ (path.map (s!"in {·}")).toList,
        v.fault.suggestions⟩ := by
  cases path with
  | none => simp [Failure.diagnostic, Violation.diagnostic]
  | some path => rfl

/-- **Every violation is shown with its line.** The line is one of the source,
    and its span holds its text and does not begin where the source ends, as the
    empty run after a final newline does. A snippet is emitted, with the label
    on that span, and what is written is what the drawer makes of it. -/
theorem emission_of_checkSource_eq_error {source : String} {v : Violation}
    (h : checkSource source = .error v) :
    1 ≤ v.line ∧ v.line ≤ (Text.lines source).length ∧
    ∃ line span, (Text.lines source)[v.line - 1]? = some line ∧
      Text.lineSpan? source v.line = some span ∧
      span.Holds source (String.ofList (Text.lineContent source v.line line)) ∧
      span.start < source.utf8ByteSize ∧
      ∀ path, ∃ s : Snippet,
        (Failure.illegal v).emission path (some source) = .snippet s ∧
        (∀ draw colors,
          ((Failure.illegal v).emission path (some source)).write draw colors = draw s colors) ∧
        s.source = source ∧ s.span = span ∧ s.offset = span.start ∧
        s.label = s!"line {v.line}" ∧ s.message = v.fault.message ∧
        s.note = (v.fault.notes ++ (path.map (s!"in {·}")).toList).head? ∧
        s.help = v.fault.suggestions.head?.map Suggestion.text := by
  obtain ⟨hpos, hle⟩ := line_of_checkLines_eq_error h
  obtain ⟨k, hk⟩ : ∃ k, v.line = k + 1 := ⟨v.line - 1, by omega⟩
  obtain ⟨line, hline⟩ : ∃ line, (Text.lines source)[k]? = some line :=
    ⟨_, List.getElem?_eq_getElem (by omega)⟩
  obtain ⟨span, hspan, hholds, hstart⟩ := Text.exists_span_of_line hline
  rw [← hk] at hspan hholds
  refine ⟨hpos, hle, line, span, by simpa [hk] using hline, hspan, hholds, hstart,
    fun path => ?_⟩
  have hemission : (Failure.illegal v).emission path (some source) = .snippet _ :=
    Diagnostic.emission_eq_snippet_iff.2
      ⟨v.line, span, by rw [diagnostic_illegal], hspan, rfl⟩
  refine ⟨_, hemission, fun draw colors => by rw [hemission, Emission.write], ?_⟩
  simp [diagnostic_illegal]

/-- A violation in a last line that ends with a carriage return alone, after a
    character of two bytes: the line has the carriage return and its span does
    not. -/
theorem emission_of_duplicate_in_last_line :
    checkSource "//\u00e4\nint a;\nint a;\r" = .error ⟨3, .duplicateVariable "a"⟩ ∧
    (Text.lines "//\u00e4\nint a;\nint a;\r")[2]? = some "int a;\r" ∧
    Text.lineSpan? "//\u00e4\nint a;\nint a;\r" 3 = some ⟨12, 18⟩ ∧
    Text.Span.Holds "//\u00e4\nint a;\nint a;\r" ⟨12, 18⟩ "int a;" ∧
    (Failure.illegal ⟨3, .duplicateVariable "a"⟩).emission (some "p")
        (some "//\u00e4\nint a;\nint a;\r") =
      .snippet ⟨"//\u00e4\nint a;\nint a;\r", "variable 'a' is already declared in this scope",
        12, ⟨12, 18⟩, "line 3", some "in p", none⟩ := by
  have h : checkSource "//\u00e4\nint a;\nint a;\r" = .error ⟨3, .duplicateVariable "a"⟩ := by
    decide +kernel
  obtain ⟨-, -, line, span, hline, hspan, hholds, -, hemission⟩ :=
    emission_of_checkSource_eq_error h
  have hline' : (Text.lines "//\u00e4\nint a;\nint a;\r")[2]? = some "int a;\r" := by
    decide +kernel
  have hspan' : Text.lineSpan? "//\u00e4\nint a;\nint a;\r" 3 = some ⟨12, 18⟩ := by
    decide +kernel
  have hcontent : String.ofList (Text.lineContent "//\u00e4\nint a;\nint a;\r" 3 "int a;\r") =
      "int a;" := by
    decide +kernel
  obtain rfl : line = "int a;\r" := Option.some.inj (hline.symm.trans hline')
  obtain rfl : span = ⟨12, 18⟩ := Option.some.inj (hspan.symm.trans hspan')
  rw [hcontent] at hholds
  refine ⟨h, hline', hspan', hholds, ?_⟩
  obtain ⟨⟨⟩, hs, -, rfl, rfl, rfl, rfl, rfl, rfl, rfl⟩ := hemission (some "p")
  exact hs.trans (by decide +kernel)

end LineCheck
