import LineCheck.Condition
import LineCheck.Proofs.Kinds

/-!
Texts cut at operators.

A condition is cut at `||`, and what is between them at `&&`; `Condition.pieces`
are the runs that are left. `Condition.Joined` puts a text together from pieces
and operators, and where no piece holds a character of an operator, the cut
finds these pieces again (`Joined.iff_forall_pieces`). If moreover no piece is
blank, the text neither begins nor ends with an operator (`Joined.not_borders`),
and no two operators stand side by side (`Joined.not_adjacent`).
-/

namespace LineCheck

/-! ## Trimmed ends -/

namespace Text

theorem trimStart_append_cons {c : Char} (hc : isBlank c = false) (text rest : List Char) :
    trimStart (text ++ c :: rest) = trimStart text ++ c :: rest := by
  induction text with
  | nil => exact List.dropWhile_cons_of_neg (by simp [hc])
  | cons d text ih =>
    by_cases hd : isBlank d = true
    · have hdrop : ∀ text, trimStart (d :: text) = trimStart text :=
        fun _ => List.dropWhile_cons_of_pos hd
      rw [List.cons_append, hdrop, hdrop, ih]
    · have hkeep : ∀ text, trimStart (d :: text) = d :: text :=
        fun _ => List.dropWhile_cons_of_neg hd
      rw [List.cons_append, hkeep, hkeep, List.cons_append]

theorem trimEnd_append_cons {c : Char} (hc : isBlank c = false) (text rest : List Char) :
    trimEnd (text ++ c :: rest) = text ++ c :: trimEnd rest := by
  have hreverse : (text ++ c :: rest).reverse = rest.reverse ++ c :: text.reverse := by simp
  rw [trimEnd, trimEnd, hreverse, ← trimStart, ← trimStart, trimStart_append_cons hc]
  simp

variable {c d : Char} {text : List Char}

/-- A trimmed text begins with two characters if only blanks stand before them. -/
theorem prefix_trim_iff (hc : isBlank c = false) (hd : isBlank d = false) :
    [c, d] <+: trim text ↔
      ∃ gap rest, text = gap ++ [c, d] ++ rest ∧ ∀ g ∈ gap, isBlank g = true := by
  constructor
  · rintro ⟨rest, hrest⟩
    obtain ⟨gap, gap', htext, hgap, -⟩ := exists_eq_append_trim text
    rw [← hrest] at htext
    exact ⟨gap, rest ++ gap', by rw [htext]; simp, hgap⟩
  · rintro ⟨gap, rest, rfl, hgap⟩
    have hstart : trimStart (gap ++ [c, d] ++ rest) = [c] ++ d :: rest := by
      rw [List.append_assoc]
      exact trimStart_append hgap hc (d :: rest)
    rw [trim, hstart, trimEnd_append_cons hd]
    exact ⟨trimEnd rest, rfl⟩

/-- A trimmed text ends with two characters if only blanks stand after them. -/
theorem suffix_trim_iff (hc : isBlank c = false) (hd : isBlank d = false) :
    [c, d] <:+ trim text ↔
      ∃ front gap, text = front ++ [c, d] ++ gap ∧ ∀ g ∈ gap, isBlank g = true := by
  constructor
  · rintro ⟨front, hfront⟩
    obtain ⟨gap, gap', htext, -, hgap'⟩ := exists_eq_append_trim text
    rw [← hfront] at htext
    exact ⟨gap ++ front, gap', by rw [htext]; simp, hgap'⟩
  · rintro ⟨front, gap, rfl, hgap⟩
    have hstart : trimStart (front ++ [c, d] ++ gap) = trimStart front ++ [c] ++ d :: gap := by
      rw [List.append_assoc, List.append_assoc]
      exact trimStart_append_cons hc front (d :: gap)
    rw [trim, hstart, trimEnd_append hgap hd]
    exact ⟨trimStart front, by simp⟩

end Text

namespace Condition

/-! ## Cutting at operators -/

section Split

variable {c : Char}

theorem splitAtDouble_cons_of_ne {a : Char} (h : a ≠ c) (text : List Char) :
    splitAtDouble c (a :: text) = (splitAtDouble c text).modifyHead (a :: ·) := by
  cases text with
  | nil => rfl
  | cons b text => rw [splitAtDouble, if_neg fun hab => h hab.1]

theorem splitAtDouble_double (c : Char) (text : List Char) :
    splitAtDouble c (c :: c :: text) = [] :: splitAtDouble c text := by
  rw [splitAtDouble, if_pos ⟨rfl, rfl⟩]

/-- A text is its first run, or its first run, an operator, and what has the
    other runs. -/
theorem exists_of_splitAtDouble (c : Char) (text : List Char) :
    ∃ run runs, splitAtDouble c text = run :: runs ∧
      (runs = [] ∧ text = run ∨
        ∃ rest, text = run ++ [c, c] ++ rest ∧ runs = splitAtDouble c rest) := by
  fun_induction splitAtDouble c text with
  | case1 => exact ⟨[], [], rfl, .inl ⟨rfl, rfl⟩⟩
  | case2 a => exact ⟨[a], [], rfl, .inl ⟨rfl, rfl⟩⟩
  | case3 a b text hab ih =>
    obtain ⟨rfl, rfl⟩ := hab
    exact ⟨[], _, rfl, .inr ⟨text, rfl, rfl⟩⟩
  | case4 a b text hab ih =>
    obtain ⟨run, runs, hsplit, htext⟩ := ih
    refine ⟨a :: run, runs, by rw [hsplit, List.modifyHead_cons], ?_⟩
    rcases htext with ⟨hruns, htext⟩ | ⟨rest, htext, hruns⟩
    · exact .inl ⟨hruns, by rw [htext]⟩
    · exact .inr ⟨rest, by rw [htext]; rfl, hruns⟩

/-- Text without the character of an operator goes to the first run. -/
theorem splitAtDouble_append {text : List Char} (h : c ∉ text) {rest run : List Char}
    {runs : List (List Char)} (hrest : splitAtDouble c rest = run :: runs) :
    splitAtDouble c (text ++ rest) = (text ++ run) :: runs := by
  induction text with
  | nil => exact hrest
  | cons a text ih =>
    rw [List.mem_cons, not_or] at h
    rw [List.cons_append, splitAtDouble_cons_of_ne (Ne.symm h.1), ih h.2, List.modifyHead_cons]
    rfl

theorem splitAtDouble_append_double {text : List Char} (h : c ∉ text) (rest : List Char) :
    splitAtDouble c (text ++ [c, c] ++ rest) = text :: splitAtDouble c rest := by
  have happend := splitAtDouble_append h (splitAtDouble_double c rest)
  rw [List.append_nil] at happend
  rw [List.append_assoc]
  exact happend

/-- Every run has its place in the text: it begins the text or stands behind an
    operator, and it ends the text or stands before one. -/
theorem exists_place {text : List Char} {before after : List (List Char)} {run : List Char}
    (h : splitAtDouble c text = before ++ run :: after) :
    ∃ front rest, text = front ++ run ++ rest ∧ (front = [] ∨ [c, c] <:+ front) ∧
      (rest = [] ∨ [c, c] <+: rest) := by
  obtain ⟨first, runs, hsplit, htext⟩ := exists_of_splitAtDouble c text
  induction before generalizing text first runs with
  | nil =>
    obtain ⟨rfl, rfl⟩ : first = run ∧ runs = after := by simpa [hsplit] using h
    rcases htext with ⟨-, rfl⟩ | ⟨rest, rfl, -⟩
    · exact ⟨[], [], by simp, .inl rfl, .inl rfl⟩
    · exact ⟨[], [c, c] ++ rest, by simp, .inl rfl, .inr ⟨rest, rfl⟩⟩
  | cons other before ih =>
    obtain ⟨rfl, rfl⟩ : first = other ∧ runs = before ++ run :: after := by simpa [hsplit] using h
    rcases htext with ⟨hnil, -⟩ | ⟨rest, rfl, hrest⟩
    · simp at hnil
    · obtain ⟨first', runs', hsplit', htext'⟩ := exists_of_splitAtDouble c rest
      obtain ⟨front, last, rfl, hfront, hlast⟩ := ih hrest.symm first' runs' hsplit' htext'
      refine ⟨first ++ [c, c] ++ front, last, by simp, .inr ?_, hlast⟩
      rcases hfront with rfl | hfront
      · exact ⟨first, by simp⟩
      · exact hfront.trans (List.suffix_append _ _)

/-- No operator is left in a run. -/
theorem not_infix_of_mem {text run : List Char} (h : run ∈ splitAtDouble c text) :
    ¬[c, c] <:+: run := by
  fun_induction splitAtDouble c text generalizing run with
  | case1 =>
    obtain rfl : run = [] := by simpa using h
    simp
  | case2 a =>
    obtain rfl : run = [a] := by simpa using h
    intro hoccurs
    simpa using hoccurs.length_le
  | case3 a b text hab ih =>
    rcases List.mem_cons.1 h with rfl | h
    · simp
    · exact ih h
  | case4 a b text hab ih =>
    obtain ⟨first, runs, hsplit, htext⟩ := exists_of_splitAtDouble c (b :: text)
    rw [hsplit, List.modifyHead_cons] at h
    rcases List.mem_cons.1 h with rfl | h
    · rw [List.infix_cons_iff, not_or]
      refine ⟨fun hbegins => hab ?_, ih (by simp [hsplit])⟩
      -- the first run would go on with the second character
      obtain ⟨rfl, tail, rfl⟩ : c = a ∧ ∃ tail, first = c :: tail := by
        obtain ⟨tail, htail⟩ := hbegins
        have hcons := List.cons.inj htail
        exact ⟨hcons.1, tail, hcons.2.symm⟩
      refine ⟨rfl, ?_⟩
      rcases htext with ⟨-, htext⟩ | ⟨rest, htext, -⟩
      · exact (List.cons.inj htext).1
      · exact (List.cons.inj htext).1
    · exact ih (by simp [hsplit, h])

theorem splitAtDouble_of_not_infix {text : List Char} (h : ¬[c, c] <:+: text) :
    splitAtDouble c text = [text] := by
  fun_induction splitAtDouble c text with
  | case1 => rfl
  | case2 => rfl
  | case3 a b text hab ih =>
    obtain ⟨rfl, rfl⟩ := hab
    exact absurd ⟨[], text, rfl⟩ h
  | case4 a b text hab ih =>
    rw [List.infix_cons_iff, not_or] at h
    rw [ih h.2, List.modifyHead_cons]

theorem splitAtDouble_of_not_mem {text : List Char} (h : c ∉ text) :
    splitAtDouble c text = [text] :=
  splitAtDouble_of_not_infix fun hoccurs => h (hoccurs.subset (by simp))

end Split

/-! ## Pieces -/

/-- The runs of a text between its operators: it is cut at `||`, and what is
    between them at `&&`. -/
def pieces (text : List Char) : List (List Char) :=
  (splitAtDouble '|' text).flatMap (splitAtDouble '&')

/-- The characters that operators are made of. -/
def isOperatorChar (c : Char) : Bool :=
  c == '|' || c == '&'

theorem isBlank_of_isOperatorChar {c : Char} (h : isOperatorChar c = true) :
    Text.isBlank c = false := by
  simp only [isOperatorChar, Bool.or_eq_true, beq_iff_eq] at h
  rcases h with rfl | rfl <;> decide

/-- An operator is a character written twice. -/
theorem exists_text_eq {op : Symbol} (h : op ∈ [Symbol.or, .and]) :
    ∃ c, op.text.toList = [c, c] ∧ isOperatorChar c = true := by
  simp only [List.mem_cons, List.not_mem_nil, or_false] at h
  rcases h with rfl | rfl
  · exact ⟨'|', rfl, rfl⟩
  · exact ⟨'&', rfl, rfl⟩

/-- No character of a text belongs to an operator. -/
def IsPlain (text : List Char) : Prop :=
  ∀ c ∈ text, isOperatorChar c = false

theorem IsPlain.not_mem {text : List Char} (h : IsPlain text) {c : Char}
    (hc : isOperatorChar c = true) : c ∉ text := by
  intro hmem
  rw [h c hmem] at hc
  cases hc

theorem pieces_of_isPlain {piece : List Char} (h : IsPlain piece) : pieces piece = [piece] := by
  rw [pieces, splitAtDouble_of_not_mem (h.not_mem rfl), List.flatMap_singleton,
    splitAtDouble_of_not_mem (h.not_mem rfl)]

/-- What stands before the first operator is the first piece, whichever operator
    it is. -/
theorem pieces_append {piece : List Char} (h : IsPlain piece) {op : Symbol}
    (hop : op ∈ [Symbol.or, .and]) (rest : List Char) :
    pieces (piece ++ op.text.toList ++ rest) = piece :: pieces rest := by
  have hbar : '|' ∉ piece := h.not_mem rfl
  have hampersand : '&' ∉ piece := h.not_mem rfl
  obtain ⟨run, runs, hrest, -⟩ := exists_of_splitAtDouble '|' rest
  simp only [List.mem_cons, List.not_mem_nil, or_false] at hop
  rcases hop with rfl | rfl
  · show (splitAtDouble '|' (piece ++ ['|', '|'] ++ rest)).flatMap _ = _
    rw [splitAtDouble_append_double hbar, List.flatMap_cons, splitAtDouble_of_not_mem hampersand]
    rfl
  · -- the cut at `||` leaves the operator in the first run, and the cut at `&&` finds it there
    have hsplit : splitAtDouble '|' (piece ++ ['&', '&'] ++ rest) =
        (piece ++ ['&', '&'] ++ run) :: runs := splitAtDouble_append (by simp [hbar]) hrest
    show (splitAtDouble '|' (piece ++ ['&', '&'] ++ rest)).flatMap _ = _
    rw [hsplit, List.flatMap_cons, splitAtDouble_append_double hampersand, pieces, hrest,
      List.flatMap_cons]
    rfl

/-- A text is its first piece, or goes on behind it with an operator. -/
theorem exists_mem_pieces (text : List Char) :
    ∃ piece ∈ pieces text, text = piece ∨
      ∃ op ∈ [Symbol.or, .and], ∃ rest, text = piece ++ op.text.toList ++ rest := by
  obtain ⟨run, runs, hruns, htext⟩ := exists_of_splitAtDouble '|' text
  obtain ⟨piece, ps, hps, hrun⟩ := exists_of_splitAtDouble '&' run
  refine ⟨piece, by simp [pieces, hruns, hps], ?_⟩
  rcases hrun with ⟨-, rfl⟩ | ⟨rest, rfl, -⟩
  · rcases htext with ⟨-, rfl⟩ | ⟨rest, rfl, -⟩
    · exact .inl rfl
    · exact .inr ⟨.or, by simp, rest, rfl⟩
  · rcases htext with ⟨-, rfl⟩ | ⟨rest', rfl, -⟩
    · exact .inr ⟨.and, by simp, rest, rfl⟩
    · exact .inr ⟨.and, by simp, rest ++ ['|', '|'] ++ rest', by simp [Symbol.text]⟩

/-- Pieces joined by operators. -/
inductive Joined (P : List Char → Prop) : List Char → Prop
  | single {piece : List Char} (h : P piece) : Joined P piece
  | cons {piece rest : List Char} {op : Symbol} (h : P piece) (hop : op ∈ [Symbol.or, .and])
    (hrest : Joined P rest) : Joined P (piece ++ op.text.toList ++ rest)

namespace Joined

variable {P : List Char → Prop} {text : List Char}

theorem imp {Q : List Char → Prop} (hPQ : ∀ piece, P piece → Q piece) (h : Joined P text) :
    Joined Q text := by
  induction h with
  | single h => exact .single (hPQ _ h)
  | cons h hop _ ih => exact .cons (hPQ _ h) hop ih

theorem exists_first (h : Joined P text) : ∃ piece rest, P piece ∧ text = piece ++ rest := by
  cases h with
  | single h => exact ⟨text, [], h, by simp⟩
  | @cons piece rest op h => exact ⟨piece, op.text.toList ++ rest, h, by simp⟩

theorem exists_last (h : Joined P text) : ∃ front piece, P piece ∧ text = front ++ piece := by
  induction h with
  | @single piece h => exact ⟨[], piece, h, rfl⟩
  | @cons piece rest op _ _ _ ih =>
    obtain ⟨front, last, hlast, rfl⟩ := ih
    exact ⟨piece ++ op.text.toList ++ front, last, hlast, by simp⟩

/-- **The pieces of a text are what operators join.** -/
theorem iff_forall_pieces (hP : ∀ piece, P piece → IsPlain piece) :
    Joined P text ↔ ∀ piece ∈ pieces text, P piece := by
  constructor
  · intro h
    induction h with
    | single h =>
      rw [pieces_of_isPlain (hP _ h)]
      exact List.forall_mem_singleton.2 h
    | cons h hop _ ih =>
      rw [pieces_append (hP _ h) hop]
      exact List.forall_mem_cons.2 ⟨h, ih⟩
  · intro h
    induction hn : text.length using Nat.strong_induction_on generalizing text with
    | _ n ih =>
      obtain ⟨piece, hmem, rfl | ⟨op, hop, rest, rfl⟩⟩ := exists_mem_pieces text
      · exact .single (h text hmem)
      · have hpiece : P piece := h piece hmem
        obtain ⟨c, hc, -⟩ := exists_text_eq hop
        rw [pieces_append (hP piece hpiece) hop, List.forall_mem_cons] at h
        refine .cons hpiece hop (ih rest.length ?_ h.2 rfl)
        rw [← hn, hc]
        simp only [List.length_append, List.length_cons]
        omega

end Joined

/-! ## Operands -/

/-- A text that an operand may be read from: no character of it belongs to an
    operator, and not all of it is blank. -/
structure IsSolid (text : List Char) : Prop where
  plain : IsPlain text
  exists_not_blank : ∃ c ∈ text, Text.isBlank c = false

namespace IsSolid

variable {piece gap rest rest' : List Char} {c : Char}

theorem reverse (h : IsSolid piece) : IsSolid piece.reverse := by
  obtain ⟨d, hd, hblank⟩ := h.exists_not_blank
  exact ⟨fun c hc => h.plain c (List.mem_reverse.1 hc), d, List.mem_reverse.2 hd, hblank⟩

/-- A text that begins with an operand does not begin with an operator behind
    blanks. -/
theorem append_ne (h : IsSolid piece) (hgap : ∀ d ∈ gap, Text.isBlank d = true)
    (hc : isOperatorChar c = true) : piece ++ rest ≠ gap ++ c :: rest' := by
  intro heq
  obtain ⟨d, hd, hblank⟩ := h.exists_not_blank
  have hnot : d ∉ gap := by
    intro hmem
    rw [hgap d hmem] at hblank
    cases hblank
  rcases List.append_eq_append_iff.1 heq with ⟨more, rfl, -⟩ | ⟨more, rfl, hmore⟩
  · exact hnot (List.mem_append_left more hd)
  · cases more with
    | nil => exact hnot (by simpa using hd)
    | cons e more =>
      obtain ⟨rfl, -⟩ := List.cons.inj hmore
      exact h.plain.not_mem hc (by simp)

/-- A text that ends with an operand does not end with an operator before blanks. -/
theorem append_ne_append (h : IsSolid piece) (hgap : ∀ d ∈ gap, Text.isBlank d = true)
    (hc : isOperatorChar c = true) : rest ++ piece ≠ rest' ++ c :: gap := by
  intro heq
  have hgap' : ∀ d ∈ gap.reverse, Text.isBlank d = true :=
    fun d hd => hgap d (List.mem_reverse.1 hd)
  have hne : piece.reverse ++ rest.reverse ≠ gap.reverse ++ c :: rest'.reverse :=
    h.reverse.append_ne hgap' hc
  exact hne (by simpa using congrArg List.reverse heq)

end IsSolid

/-- Whether a text begins or ends with an operator, blanks apart. -/
def Borders (op : Symbol) (text : List Char) : Prop :=
  op.text.toList <+: Text.trim text ∨ op.text.toList <:+ Text.trim text

theorem isDangling_eq_true_iff {text : List Char} :
    isDangling text = true ↔ ∃ op ∈ [Symbol.or, .and], Borders op text := by
  simp [isDangling, Borders]

namespace Joined

variable {text : List Char} (h : Joined IsSolid text)

include h

/-- Joined operands neither begin nor end with an operator. -/
theorem not_borders {op : Symbol} (hop : op ∈ [Symbol.or, .and]) : ¬Borders op text := by
  obtain ⟨c, hc, hchar⟩ := exists_text_eq hop
  have hblank := isBlank_of_isOperatorChar hchar
  rw [Borders, hc, Text.prefix_trim_iff hblank hblank, Text.suffix_trim_iff hblank hblank]
  rintro (⟨gap, rest, heq, hgap⟩ | ⟨front, gap, heq, hgap⟩)
  · obtain ⟨piece, more, hpiece, rfl⟩ := h.exists_first
    exact hpiece.append_ne hgap hchar (by simpa using heq)
  · obtain ⟨more, piece, hpiece, rfl⟩ := h.exists_last
    have hne : more ++ piece ≠ front ++ [c] ++ c :: gap := hpiece.append_ne_append hgap hchar
    exact hne (by simpa using heq)

theorem isDangling_eq_false : isDangling text = false := by
  refine Bool.eq_false_iff.2 fun hdangling => ?_
  obtain ⟨op, hop, hborders⟩ := isDangling_eq_true_iff.1 hdangling
  exact h.not_borders hop hborders

/-- Joined operands have no two operators with only blanks between them. -/
theorem not_adjacent {op op' : Symbol} (hop : op ∈ [Symbol.or, .and])
    (hop' : op' ∈ [Symbol.or, .and]) {front gap rest : List Char}
    (hgap : ∀ c ∈ gap, Text.isBlank c = true) :
    text ≠ front ++ op.text.toList ++ gap ++ op'.text.toList ++ rest := by
  obtain ⟨d, hd, hchar⟩ := exists_text_eq hop
  obtain ⟨d', hd', hchar'⟩ := exists_text_eq hop'
  rw [hd, hd']
  induction h generalizing front with
  | single h =>
    rintro rfl
    exact h.plain.not_mem hchar (by simp)
  | @cons piece more op'' hpiece hop'' hmore ih =>
    obtain ⟨c, hc, hchar''⟩ := exists_text_eq hop''
    obtain ⟨first, later, hfirst, rfl⟩ := hmore.exists_first
    intro heq
    rw [hc] at heq
    have hbehind : ∀ before, [c, c] ++ (first ++ later) ≠
        before ++ ([d, d] ++ (gap ++ ([d', d'] ++ rest))) := by
      intro before hbefore
      rcases before with _ | ⟨x, _ | ⟨y, before⟩⟩
      · -- the two operators follow each other, and what stands between them is blank
        have hne : first ++ later ≠ gap ++ d' :: (d' :: rest) := hfirst.append_ne hgap hchar'
        exact hne (List.cons.inj (List.cons.inj hbefore).2).2
      · -- the operand begins with the second half of an operator
        have hne : first ++ later ≠ [] ++ d :: (gap ++ ([d', d'] ++ rest)) :=
          hfirst.append_ne (by simp) hchar
        exact hne (List.cons.inj (List.cons.inj hbefore).2).2
      · have hlater := (List.cons.inj (List.cons.inj hbefore).2).2
        simp only [List.append_assoc] at ih
        exact ih hlater
    simp only [List.append_assoc] at heq
    rcases List.append_eq_append_iff.1 heq with ⟨before, -, hbefore⟩ | ⟨before, rfl, hbefore⟩
    · exact hbehind before hbefore
    · cases before with
      | nil => exact hbehind [] hbefore.symm
      | cons x before =>
        obtain ⟨rfl, -⟩ := List.cons.inj hbefore
        exact hpiece.plain.not_mem hchar (by simp)

end Joined

end Condition

end LineCheck
