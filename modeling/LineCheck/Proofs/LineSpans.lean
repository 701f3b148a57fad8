import LineCheck.Proofs.Spans

/-!
The spans of the lines cut the source into lines and line ends.

There is a span for every run between newlines (`lineSpan?_succ`,
`Cutting.length_splitOn`). A span holds its run without a carriage return at the
end (`holds_spanAt`), and the source goes on after it with that carriage return,
if there is one, and with the newline before the next span, if there is one
(`holds_between`, `holds_behind`). So the spans and the line ends between them
make up the source (`lineSpan?_partitions`).
-/

namespace LineCheck.Text

/-! ## Spans and texts -/

/-- The span is one of the source, begins and ends between characters, and its
    bytes are those of the text. -/
structure Span.Holds (source : String) (span : Span) (text : String) : Prop where
  start : (⟨span.start⟩ : String.Pos.Raw).IsValid source
  stop : (⟨span.stop⟩ : String.Pos.Raw).IsValid source
  start_le_stop : span.start ≤ span.stop
  text : source.toUTF8.extract span.start span.stop = text.toUTF8

theorem utf8ByteSize_ofList (text : List Char) :
    (String.ofList text).utf8ByteSize = byteSize text := by
  rw [← String.size_toByteArray, String.toByteArray_ofList, size_utf8Encode]

theorem utf8ByteSize_eq (source : String) : source.utf8ByteSize = byteSize source.toList := by
  rw [← utf8ByteSize_ofList, String.ofList_toList]

section

variable {source : String} {before text after : List Char}

theorem isValid_of_toList (h : source.toList = before ++ after) :
    (⟨byteSize before⟩ : String.Pos.Raw).IsValid source := by
  refine String.Pos.Raw.isValid_iff_exists_append.2
    ⟨String.ofList before, String.ofList after, ?_, ?_⟩
  · apply String.toList_injective
    simpa using h
  · exact String.Pos.Raw.ext (utf8ByteSize_ofList before).symm

/-- A part of a source stands where the part before it ends. -/
theorem holds_of_toList (h : source.toList = before ++ text ++ after) :
    Span.Holds source ⟨byteSize before, byteSize (before ++ text)⟩ (String.ofList text) where
  start := by
    rw [List.append_assoc] at h
    exact isValid_of_toList h
  stop := isValid_of_toList h
  start_le_stop := by
    rw [byteSize_append]
    exact Nat.le_add_right _ _
  text := by
    rw [byteSize_append]
    exact extract_toUTF8 h

end

/-! ## Runs and line ends -/

section Run

variable {source : String} {runs : List (List Char)} {k : Nat} {run next : List Char}

theorem holds_spanAt (hruns : ['\n'].intercalate runs = source.toList) (hk : runs[k]? = some run) :
    Span.Holds source (spanAt runs k run) (String.ofList (dropReturn run)) := by
  obtain ⟨ending, -, -, hsource⟩ := exists_toList_eq hruns hk
  have hholds := holds_of_toList hsource
  rwa [byteSize_append] at hholds

theorem runsBefore_succ (hk : runs[k]? = some run) :
    runsBefore runs (k + 1) = runsBefore runs k ++ run ++ ['\n'] := by
  simp [runsBefore, List.take_add_one, hk]

/-- **Between two spans stands a line end.** -/
theorem holds_between (hruns : ['\n'].intercalate runs = source.toList) (hk : runs[k]? = some run)
    (hnext : runs[k + 1]? = some next) :
    Span.Holds source ⟨(spanAt runs k run).stop, (spanAt runs (k + 1) next).start⟩ "\n" ∨
      Span.Holds source ⟨(spanAt runs k run).stop, (spanAt runs (k + 1) next).start⟩ "\r\n" := by
  obtain ⟨ending, hending, hrun, hsource⟩ := exists_toList_eq hruns hk
  -- the newline behind the run is the first character of what stands behind it
  obtain ⟨rest, hbehind⟩ : ∃ rest, runsBehind runs k = ['\n'] ++ rest := by
    rw [runsBehind, List.drop_eq_getElem?_toList_append, hnext]
    exact ⟨_, rfl⟩
  have hparts : source.toList =
      runsBefore runs k ++ dropReturn run ++ (ending ++ ['\n']) ++ rest := by
    rw [hsource, hbehind]
    simp
  have hstart : runsBefore runs (k + 1) =
      runsBefore runs k ++ dropReturn run ++ (ending ++ ['\n']) := by
    calc runsBefore runs (k + 1)
      _ = runsBefore runs k ++ (dropReturn run ++ ending) ++ ['\n'] := by
        rw [← hrun, runsBefore_succ hk]
      _ = runsBefore runs k ++ dropReturn run ++ (ending ++ ['\n']) := by
        simp only [List.append_assoc]
  have hholds := holds_of_toList hparts
  rw [← hstart, byteSize_append] at hholds
  rcases hending with rfl | rfl
  · exact .inl hholds
  · exact .inr hholds

/-- **Behind the last span stands a carriage return at most.** -/
theorem holds_behind (hruns : ['\n'].intercalate runs = source.toList) (hk : runs[k]? = some run)
    (hlast : runs.length = k + 1) :
    Span.Holds source ⟨(spanAt runs k run).stop, source.utf8ByteSize⟩ "" ∨
      Span.Holds source ⟨(spanAt runs k run).stop, source.utf8ByteSize⟩ "\r" := by
  obtain ⟨ending, hending, -, hsource⟩ := exists_toList_eq hruns hk
  have hbehind : runsBehind runs k = [] := by
    rw [runsBehind, ← hlast, List.drop_length, List.flatMap_nil]
  rw [hbehind, ← List.append_assoc] at hsource
  have hholds := holds_of_toList hsource
  rw [← List.append_nil (_ ++ ending), ← hsource, ← utf8ByteSize_eq, byteSize_append] at hholds
  rcases hending with rfl | rfl
  · exact .inl hholds
  · exact .inr hholds

/-- Only the empty run after the last newline begins where the source ends. -/
theorem start_spanAt_lt (hruns : ['\n'].intercalate runs = source.toList)
    (hk : runs[k]? = some run) (hline : ¬(run = [] ∧ runs.length = k + 1)) :
    (spanAt runs k run).start < source.utf8ByteSize := by
  have hrest : run ++ runsBehind runs k ≠ [] := by
    intro hempty
    obtain ⟨hrun, hbehind⟩ := List.append_eq_nil_iff.1 hempty
    have hdrop : runs.drop (k + 1) = [] :=
      List.eq_nil_iff_forall_not_mem.2 fun next hnext =>
        List.cons_ne_nil _ _ (List.flatMap_eq_nil_iff.1 hbehind next hnext)
    obtain ⟨hlt, -⟩ := List.getElem?_eq_some_iff.1 hk
    have hle := List.drop_eq_nil_iff.1 hdrop
    exact hline ⟨hrun, by omega⟩
  rw [utf8ByteSize_eq, ← hruns, intercalate_eq_of_getElem? hk, List.append_assoc,
    byteSize_append]
  exact Nat.lt_add_of_pos_right (byteSize_pos hrest)

end Run

/-! ## The source -/

/-- Every span is the span of a run. -/
theorem exists_eq_spanAt {source : String} {k : Nat} {span : Span}
    (h : lineSpan? source k = some span) :
    ∃ j run, k = j + 1 ∧ (source.toList.splitOn '\n')[j]? = some run ∧
      span = spanAt (source.toList.splitOn '\n') j run := by
  cases k with
  | zero => cases h
  | succ j =>
    rw [lineSpan?_succ] at h
    obtain ⟨run, hrun, rfl⟩ := Option.map_eq_some_iff.1 h
    exact ⟨j, run, rfl, hrun, rfl⟩

/-- Every run has a span. -/
theorem lineSpan?_of_getElem? {source : String} {j : Nat} {run : List Char}
    (h : (source.toList.splitOn '\n')[j]? = some run) :
    lineSpan? source (j + 1) = some (spanAt (source.toList.splitOn '\n') j run) := by
  rw [lineSpan?_succ, h, Option.map_some]

theorem newline_not_mem_dropReturn {source : String} {j : Nat} {run : List Char}
    (h : (source.toList.splitOn '\n')[j]? = some run) : '\n' ∉ dropReturn run := by
  intro hmem
  obtain ⟨ending, hending, -⟩ := exists_eq_dropReturn_append run
  have hnot := Cutting.not_mem_of_mem_splitOn (List.mem_of_getElem? h)
  rw [hending] at hnot
  exact hnot (List.mem_append_left _ hmem)

/-- **The span of a line holds the line**, and begins before the source ends. -/
theorem exists_span_of_line {source : String} {k : Nat} {line : String}
    (hline : (lines source)[k]? = some line) :
    ∃ span, lineSpan? source (k + 1) = some span ∧
      span.Holds source (String.ofList (lineContent source (k + 1) line)) ∧
      span.start < source.utf8ByteSize := by
  have hruns : ['\n'].intercalate (source.toList.splitOn '\n') = source.toList :=
    List.intercalate_splitOn '\n'
  obtain ⟨run, hk, hcontent, hempty⟩ := exists_run_of_getElem?_lines hline
  rw [hcontent]
  exact ⟨_, lineSpan?_of_getElem? hk, holds_spanAt hruns hk, start_spanAt_lt hruns hk hempty⟩

/-- **The spans of the lines cut the source into lines and line ends.** There is
    one for each newline and one more. Each is one of the source and holds no
    newline, the first begins where the source begins, between two of them
    stands a newline, with a carriage return before it or not, and behind the
    last one a carriage return at most. The span of a line holds the line, but
    not a carriage return at the end of a last line that no newline ends. -/
theorem lineSpan?_partitions (source : String) :
    (∀ k, (lineSpan? source k).isSome = true ↔ 1 ≤ k ∧ k ≤ source.toList.count '\n' + 1) ∧
    (∀ k span, lineSpan? source k = some span →
      ∃ text : String, span.Holds source text ∧ '\n' ∉ text.toList) ∧
    (∃ first, lineSpan? source 1 = some first ∧ first.start = 0) ∧
    (∀ k span next, lineSpan? source k = some span → lineSpan? source (k + 1) = some next →
      Span.Holds source ⟨span.stop, next.start⟩ "\n" ∨
        Span.Holds source ⟨span.stop, next.start⟩ "\r\n") ∧
    (∃ last, lineSpan? source (source.toList.count '\n' + 1) = some last ∧
      (Span.Holds source ⟨last.stop, source.utf8ByteSize⟩ "" ∨
        Span.Holds source ⟨last.stop, source.utf8ByteSize⟩ "\r")) ∧
    ∀ k line, (lines source)[k]? = some line → ∃ span, lineSpan? source (k + 1) = some span ∧
      span.Holds source (String.ofList (lineContent source (k + 1) line)) := by
  have hruns : ['\n'].intercalate (source.toList.splitOn '\n') = source.toList :=
    List.intercalate_splitOn '\n'
  have hcount := Cutting.length_splitOn '\n' source.toList
  refine ⟨?_, ?_, ?_, ?_, ?_, ?_⟩
  · intro k
    cases k with
    | zero => simp [lineSpan?]
    | succ j =>
      simp only [lineSpan?_succ, Option.isSome_map, isSome_getElem?, hcount]
      omega
  · intro k span h
    obtain ⟨j, run, rfl, hj, rfl⟩ := exists_eq_spanAt h
    refine ⟨_, holds_spanAt hruns hj, ?_⟩
    rw [String.toList_ofList]
    exact newline_not_mem_dropReturn hj
  · have hfirst := List.getElem?_eq_getElem (by omega : 0 < (source.toList.splitOn '\n').length)
    exact ⟨_, lineSpan?_of_getElem? hfirst, rfl⟩
  · intro k span next hk hnext
    obtain ⟨j, run, rfl, hj, rfl⟩ := exists_eq_spanAt hk
    obtain ⟨j', run', heq, hj', rfl⟩ := exists_eq_spanAt hnext
    obtain rfl : j' = j + 1 := by omega
    exact holds_between hruns hj hj'
  · have hlast := List.getElem?_eq_getElem
      (by omega : source.toList.count '\n' < (source.toList.splitOn '\n').length)
    exact ⟨_, lineSpan?_of_getElem? hlast, holds_behind hruns hlast hcount⟩
  · intro k line hline
    obtain ⟨span, hspan, hholds, -⟩ := exists_span_of_line hline
    exact ⟨span, hspan, hholds⟩

/-- A line end of two bytes after a character of two bytes, an empty line, and a
    last line of a carriage return alone. -/
theorem lineSpan?_of_returns :
    lineSpan? "\u00e4\r\n\n\r" 1 = some ⟨0, 2⟩ ∧ lineSpan? "\u00e4\r\n\n\r" 2 = some ⟨4, 4⟩ ∧
    (∃ text : String, Span.Holds "\u00e4\r\n\n\r" ⟨0, 2⟩ text ∧ '\n' ∉ text.toList) ∧
    (Span.Holds "\u00e4\r\n\n\r" ⟨2, 4⟩ "\n" ∨ Span.Holds "\u00e4\r\n\n\r" ⟨2, 4⟩ "\r\n") ∧
    (lines "\u00e4\r\n\n\r")[2]? = some "\r" ∧ Span.Holds "\u00e4\r\n\n\r" ⟨5, 5⟩ "" := by
  obtain ⟨-, htext, -, hbetween, -, hlines⟩ := lineSpan?_partitions "\u00e4\r\n\n\r"
  have hfirst : lineSpan? "\u00e4\r\n\n\r" 1 = some ⟨0, 2⟩ := by decide +kernel
  have hsecond : lineSpan? "\u00e4\r\n\n\r" 2 = some ⟨4, 4⟩ := by decide +kernel
  have hline : (lines "\u00e4\r\n\n\r")[2]? = some "\r" := by decide +kernel
  have hcontent : String.ofList (lineContent "\u00e4\r\n\n\r" 3 "\r") = "" := by decide +kernel
  obtain ⟨span, hspan, hholds⟩ := hlines 2 "\r" hline
  obtain rfl : span = ⟨5, 5⟩ := Option.some.inj (hspan.symm.trans (by decide +kernel))
  rw [hcontent] at hholds
  exact ⟨hfirst, hsecond, htext 1 _ hfirst, hbetween 1 _ _ hfirst hsecond, hline, hholds⟩

end LineCheck.Text
