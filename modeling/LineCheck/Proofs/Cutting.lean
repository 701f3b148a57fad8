import Mathlib.Data.List.Basic

/-!
Cutting lists, beyond what the library has: the runs that `List.splitOn` gives,
what `List.intercalate` joins, and what `List.isPrefixOf?` finds before a tail.
-/

namespace LineCheck.Cutting

variable {α : Type}

/-- A run holds no separator. -/
theorem not_mem_of_mem_splitOn [BEq α] [LawfulBEq α] {sep : α} {l run : List α}
    (h : run ∈ l.splitOn sep) : sep ∉ run := by
  induction l generalizing run with
  | nil =>
    obtain rfl : run = [] := by simpa using h
    exact List.not_mem_nil
  | cons a l ih =>
    rw [List.splitOn_cons_eq_if_modifyHead] at h
    split_ifs at h with ha
    · rcases List.mem_cons.1 h with rfl | h
      · exact List.not_mem_nil
      · exact ih h
    · obtain ⟨first, rest, hruns⟩ := List.exists_cons_of_ne_nil (List.splitOn_ne_nil sep l)
      have hfirst : sep ∉ first := ih (by simp [hruns])
      have hne : sep ≠ a := fun heq => ha (by simp [heq])
      rw [hruns, List.modifyHead_cons] at h
      rcases List.mem_cons.1 h with rfl | h
      · simp [hne, hfirst]
      · exact ih (by simp [hruns, h])

/-- There is one run more than there are separators. -/
theorem length_splitOn [BEq α] (sep : α) (l : List α) :
    (l.splitOn sep).length = l.count sep + 1 := by
  induction l with
  | nil => rfl
  | cons a l ih =>
    rw [List.splitOn_cons_eq_if_modifyHead, List.count_cons]
    split_ifs
    · rw [List.length_cons, ih]
    · rw [List.length_modifyHead, ih, Nat.add_zero]

theorem eq_or_exists_of_mem_intercalate {sep a : α} {ls : List (List α)}
    (h : a ∈ [sep].intercalate ls) : a = sep ∨ ∃ l ∈ ls, a ∈ l := by
  induction ls with
  | nil => simp at h
  | cons first ls ih =>
    cases ls with
    | nil => exact .inr ⟨first, by simp, by simpa using h⟩
    | cons next ls =>
      rw [List.intercalate_cons_cons, List.append_assoc] at h
      rcases List.mem_append.1 h with h | h
      · exact .inr ⟨first, by simp, h⟩
      · rcases List.mem_cons.1 h with rfl | h
        · exact .inl rfl
        · rcases ih h with rfl | ⟨l, hl, ha⟩
          · exact .inl rfl
          · exact .inr ⟨l, by simp [hl], ha⟩

/-- A start that shares no element with the tail is found before it or not at all. -/
theorem isPrefixOf?_append [BEq α] [LawfulBEq α] {start tail : List α}
    (h : ∀ a ∈ start, a ∉ tail) (l : List α) :
    start.isPrefixOf? (l ++ tail) = (start.isPrefixOf? l).map (· ++ tail) := by
  induction start generalizing l with
  | nil => rfl
  | cons s start ih =>
    rw [List.forall_mem_cons] at h
    cases l with
    | nil =>
      cases tail with
      | nil => rfl
      | cons a tail =>
        have hs : s ≠ a := fun hsa => h.1 (hsa ▸ List.mem_cons_self)
        simp [List.isPrefixOf?, hs]
    | cons a l =>
      simp only [List.cons_append, List.isPrefixOf?]
      split_ifs
      · exact ih h.2 l
      · rfl

end LineCheck.Cutting
