import LineCheck.Proofs.Cutting
import LineCheck.Text.Lines

/-!
Where the lines of a source stand in it.

Lines are found in two ways: `lines` gives the texts of the lines, and
`lineSpan?` looks for a line among all runs between newlines. Every line is such
a run (`exists_run_of_getElem?_lines`), and the run stands in the source where
its span says, between those before it and those behind it (`lineSpan?_succ`,
`exists_toList_eq`).
-/

namespace LineCheck.Text

/-! ## Spans -/

theorem byteSize_append (a b : List Char) : byteSize (a ++ b) = byteSize a + byteSize b := by
  induction a with
  | nil => simp [byteSize]
  | cons c a ih => rw [List.cons_append, byteSize, byteSize, ih, Nat.add_assoc]

theorem byteSize_pos {text : List Char} (h : text ≠ []) : 0 < byteSize text := by
  cases text with
  | nil => exact absurd rfl h
  | cons c text => exact Nat.add_pos_left c.utf8Size_pos _

theorem size_utf8Encode (text : List Char) : text.utf8Encode.size = byteSize text := by
  induction text with
  | nil => rfl
  | cons c text ih =>
    rw [List.utf8Encode_cons, ByteArray.size_append, ih, byteSize, List.utf8Encode_singleton]
    simp

/-- The bytes of a part of a source. -/
theorem extract_toUTF8 {source : String} {before text after : List Char}
    (h : source.toList = before ++ text ++ after) :
    source.toUTF8.extract (byteSize before) (byteSize before + byteSize text) =
      (String.ofList text).toUTF8 := by
  have hbytes : source.toByteArray =
      before.utf8Encode ++ (text.utf8Encode ++ after.utf8Encode) := by
    rw [← String.utf8Encode_toList, h, List.utf8Encode_append, List.utf8Encode_append,
      ByteArray.append_assoc]
  rw [String.toUTF8_eq_toByteArray, String.toUTF8_eq_toByteArray, String.toByteArray_ofList, hbytes,
    ← size_utf8Encode before]
  have hfirst := ByteArray.extract_append_size_add (a := before.utf8Encode)
    (b := text.utf8Encode ++ after.utf8Encode) (i := 0) (j := byteSize text)
  rw [Nat.add_zero] at hfirst
  rw [hfirst]
  exact ByteArray.extract_append_eq_left (size_utf8Encode text).symm

/-- A carriage return at the end apart, a run is kept. -/
theorem exists_eq_dropReturn_append (run : List Char) :
    ∃ ending, run = dropReturn run ++ ending ∧ (ending = [] ∨ ending = ['\r']) := by
  unfold dropReturn
  cases h : ['\r'].isSuffixOf? run with
  | none => exact ⟨[], by simp, .inl rfl⟩
  | some text => exact ⟨['\r'], (List.append_eq_of_isSuffixOf?_eq_some h).symm, .inr rfl⟩

/-- The runs before the one with index `k`, each with the newline that ends it. -/
def runsBefore (runs : List (List Char)) (k : Nat) : List Char :=
  (runs.take k).flatMap (· ++ ['\n'])

/-- The runs behind the one with index `k`, each with the newline before it. -/
def runsBehind (runs : List (List Char)) (k : Nat) : List Char :=
  (runs.drop (k + 1)).flatMap ('\n' :: ·)

theorem intercalate_cons_eq (run : List Char) (runs : List (List Char)) :
    ['\n'].intercalate (run :: runs) = run ++ runs.flatMap ('\n' :: ·) := by
  induction runs generalizing run with
  | nil => simp
  | cons next runs ih =>
    rw [List.intercalate_cons_cons, ih]
    simp

/-- A run stands between those before it and those behind it. -/
theorem intercalate_eq_of_getElem? {runs : List (List Char)} {k : Nat} {run : List Char}
    (h : runs[k]? = some run) :
    ['\n'].intercalate runs = runsBefore runs k ++ run ++ runsBehind runs k := by
  induction runs generalizing k with
  | nil => simp at h
  | cons first runs ih =>
    rw [intercalate_cons_eq]
    cases k with
    | zero =>
      obtain rfl : first = run := by simpa using h
      rfl
    | succ k =>
      have hrest : runs[k]? = some run := by simpa using h
      cases runs with
      | nil => simp at hrest
      | cons next runs =>
        have hnext := ih hrest
        rw [intercalate_cons_eq] at hnext
        rw [List.flatMap_cons, List.cons_append, hnext]
        simp [runsBefore, runsBehind]

/-- The span of a run: it begins after the runs before it, without a carriage
    return at its end. -/
def spanAt (runs : List (List Char)) (k : Nat) (run : List Char) : Span :=
  ⟨byteSize (runsBefore runs k), byteSize (runsBefore runs k) + byteSize (dropReturn run)⟩

theorem spanOfRun_eq (start : Nat) (runs : List (List Char)) (k : Nat) :
    spanOfRun start runs k = runs[k]?.map fun run =>
      ⟨start + (spanAt runs k run).start, start + (spanAt runs k run).stop⟩ := by
  induction runs generalizing start k with
  | nil => cases k <;> rfl
  | cons first runs ih =>
    cases k with
    | zero => simp [spanOfRun, spanAt, runsBefore, byteSize]
    | succ k =>
      have hbefore : byteSize (runsBefore (first :: runs) (k + 1)) =
          byteSize first + 1 + byteSize (runsBefore runs k) := by
        simp only [runsBefore, List.take_succ_cons, List.flatMap_cons, byteSize_append]
        rfl
      simp only [spanOfRun, ih, spanAt, hbefore, List.getElem?_cons_succ, Nat.add_assoc]

theorem lineSpan?_succ (source : String) (k : Nat) :
    lineSpan? source (k + 1) =
      (source.toList.splitOn '\n')[k]?.map (spanAt (source.toList.splitOn '\n') k) := by
  rw [lineSpan?, spanOfRun_eq]
  simp only [Nat.zero_add]

/-- A source around one of its runs: a carriage return at the end of the run
    belongs to the line end. -/
theorem exists_toList_eq {source : String} {runs : List (List Char)}
    (hruns : ['\n'].intercalate runs = source.toList) {k : Nat} {run : List Char}
    (h : runs[k]? = some run) :
    ∃ ending, (ending = [] ∨ ending = ['\r']) ∧ run = dropReturn run ++ ending ∧
      source.toList = runsBefore runs k ++ dropReturn run ++ (ending ++ runsBehind runs k) := by
  obtain ⟨ending, hrun, hending⟩ := exists_eq_dropReturn_append run
  refine ⟨ending, hending, hrun, ?_⟩
  calc source.toList
    _ = runsBefore runs k ++ (dropReturn run ++ ending) ++ runsBehind runs k := by
      rw [← hruns, intercalate_eq_of_getElem? h, ← hrun]
    _ = runsBefore runs k ++ dropReturn run ++ (ending ++ runsBehind runs k) := by
      simp only [List.append_assoc]

/-! ## Lines -/

/-- The runs of which an empty last one is no line. -/
theorem length_linesOfRuns (runs : List (List Char)) :
    (linesOfRuns runs).length + (if runs.getLast? = some [] then 1 else 0) = runs.length := by
  fun_induction linesOfRuns runs with
  | case1 => rfl
  | case2 => simp
  | case3 last hlast => simp [hlast]
  | case4 run next runs ih =>
    rw [List.getLast?_cons_cons, List.length_cons, List.length_cons, ← ih]
    omega

/-- Every line is a run: a last one as it is, and any other without its line end. -/
theorem getElem?_linesOfRuns {runs : List (List Char)} {k : Nat} {line : List Char}
    (h : (linesOfRuns runs)[k]? = some line) :
    ∃ run, runs[k]? = some run ∧ (k + 1 < runs.length ∧ line = dropReturn run ∨
      runs.getLast? = some run ∧ k + 1 = runs.length ∧ line = run ∧ run ≠ []) := by
  fun_induction linesOfRuns runs generalizing k with
  | case1 => simp at h
  | case2 => simp at h
  | case3 last hlast =>
    cases k with
    | zero =>
      obtain rfl : last = line := by simpa using h
      exact ⟨last, rfl, .inr ⟨rfl, rfl, rfl, hlast⟩⟩
    | succ k => simp at h
  | case4 run next runs ih =>
    cases k with
    | zero =>
      obtain rfl : dropReturn run = line := by simpa using h
      exact ⟨run, rfl, .inl ⟨by simp, rfl⟩⟩
    | succ k =>
      obtain ⟨run', hrun, hline⟩ := ih (by simpa using h)
      refine ⟨run', by simpa using hrun, ?_⟩
      rcases hline with ⟨hlt, hline⟩ | ⟨hlast, hlength, hline⟩
      · exact .inl ⟨by simpa using hlt, hline⟩
      · exact .inr ⟨by simpa [List.getLast?_cons_cons] using hlast, by simpa using hlength, hline⟩

theorem intercalate_concat {runs : List (List Char)} (h : runs ≠ []) (last : List Char) :
    ['\n'].intercalate (runs ++ [last]) = ['\n'].intercalate runs ++ '\n' :: last := by
  induction runs with
  | nil => exact absurd rfl h
  | cons first runs ih =>
    cases runs with
    | nil => simp [List.intercalate_cons_cons]
    | cons next runs =>
      rw [List.cons_append, List.cons_append, List.intercalate_cons_cons, ← List.cons_append,
        ih (List.cons_ne_nil _ _), List.intercalate_cons_cons, List.append_assoc, List.append_assoc]
      simp

/-- A text ends with a newline iff the last of its runs is empty and not the
    only one. -/
theorem getLast?_intercalate {runs : List (List Char)} (hruns : ∀ run ∈ runs, '\n' ∉ run) :
    (['\n'].intercalate runs).getLast? = some '\n' ↔ 2 ≤ runs.length ∧ runs.getLast? = some [] := by
  rcases runs.eq_nil_or_concat with rfl | ⟨init, last, rfl⟩
  · simp [List.intercalate]
  · have hne : last.getLast? ≠ some '\n' :=
      fun h => hruns last (by simp) (List.mem_of_getLast? h)
    rw [List.concat_eq_append, List.getLast?_concat]
    by_cases hinit : init = []
    · simp [hinit, hne]
    · have hlength : 0 < init.length := List.length_pos_iff.2 hinit
      rw [intercalate_concat hinit]
      cases last with
      | nil => simp [Nat.succ_le_iff, hlength]
      | cons c last => simpa [List.getLast?_append, List.getLast?_cons_cons] using hne

/-- Whether a line is the last one, and no newline ends it. -/
def isUnended (source : String) (number : Nat) : Bool :=
  number == (lines source).length && source.toList.getLast? != some '\n'

/-- The text of a line without its line end, from the text that `lines` gives: a
    carriage return before the end of the source stands before no newline, so
    `lines` leaves it with the line. -/
def lineContent (source : String) (number : Nat) (line : String) : List Char :=
  if isUnended source number then dropReturn line.toList else line.toList

/-- **Every line is a run of the source**, and not an empty one behind the last
    newline. -/
theorem exists_run_of_getElem?_lines {source : String} {k : Nat} {line : String}
    (h : (lines source)[k]? = some line) :
    ∃ run, (source.toList.splitOn '\n')[k]? = some run ∧
      lineContent source (k + 1) line = dropReturn run ∧
      ¬(run = [] ∧ (source.toList.splitOn '\n').length = k + 1) := by
  have hlength : (lines source).length = (linesOfRuns (source.toList.splitOn '\n')).length :=
    List.length_map _
  have hcount := length_linesOfRuns (source.toList.splitOn '\n')
  have hlast := getLast?_intercalate fun run (hrun : run ∈ source.toList.splitOn '\n') =>
    Cutting.not_mem_of_mem_splitOn hrun
  rw [List.intercalate_splitOn] at hlast
  obtain ⟨text, htext, rfl⟩ : ∃ text, (linesOfRuns (source.toList.splitOn '\n'))[k]? = some text ∧
      String.ofList text = line := by
    simpa [lines, List.getElem?_map] using h
  obtain ⟨run, hrun, ⟨hlt, rfl⟩ | ⟨hrunlast, hk, rfl, hne⟩⟩ := getElem?_linesOfRuns htext
  · refine ⟨run, hrun, ?_, by omega⟩
    have hended : isUnended source (k + 1) = false := by
      -- if the line is the last, the run behind it is the empty one, so the
      -- source ends in a newline
      by_cases hk : k + 1 = (lines source).length
      · have hempty : (source.toList.splitOn '\n').getLast? = some [] := by
          by_contra hne
          rw [if_neg hne] at hcount
          omega
        simp [isUnended, hlast.2 ⟨by omega, hempty⟩]
      · simp [isUnended, hk]
    simp [lineContent, hended]
  · refine ⟨text, hrun, ?_, fun hempty => hne hempty.1⟩
    have hunended : isUnended source (k + 1) = true := by
      have hnonempty : (source.toList.splitOn '\n').getLast? ≠ some [] := by
        rw [hrunlast]
        simpa using hne
      rw [if_neg hnonempty] at hcount
      have hnewline : source.toList.getLast? ≠ some '\n' := fun h => hnonempty (hlast.1 h).2
      have hnumber : k + 1 = (lines source).length := by omega
      simp [isUnended, hnewline, hnumber]
    simp [lineContent, hunended]

end LineCheck.Text
