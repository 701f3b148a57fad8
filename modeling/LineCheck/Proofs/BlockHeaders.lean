import LineCheck.Proofs.Kinds

/-!
The texts of block headers.

A block header is written as its word, its condition in parentheses and a brace,
with blanks before, between and after them (`BlockHeader.write`). It is read by
cutting off blanks and brackets from both ends, so the condition may hold what
it likes, brackets and blanks at its ends too. The texts that can be read are
exactly those that are written so (`BlockHeader.ofText?_write`,
`BlockHeader.exists_eq_write`), and what was written can be told from the text
(`BlockHeader.write_injective`).
-/

namespace LineCheck

/-! ## Blanks -/

/-- A run of blanks. -/
@[ext]
structure Text.Blanks where
  text : String
  isBlank : ∀ c ∈ text.toList, isBlank c = true

namespace Text.Blanks

def ofList (gap : List Char) (h : ∀ c ∈ gap, Text.isBlank c = true) : Blanks :=
  ⟨String.ofList gap, by simpa using h⟩

/-- A character that is not blank ends a run of blanks. -/
theorem append_cons_inj {w w' : Blanks} {c : Char} (hc : Text.isBlank c = false)
    {rest rest' : List Char} (h : w.text.toList ++ c :: rest = w'.text.toList ++ c :: rest') :
    w = w' ∧ rest = rest' := by
  have htake : ∀ (u : Blanks) (tail : List Char),
      (u.text.toList ++ c :: tail).takeWhile Text.isBlank = u.text.toList := by
    intro u tail
    rw [List.takeWhile_append_of_pos u.isBlank, List.takeWhile_cons_of_neg (by simp [hc]),
      List.append_nil]
  have htext : w.text.toList = w'.text.toList := by
    rw [← htake w rest, h, htake w' rest']
  rw [htext] at h
  obtain rfl : w = w' := Blanks.ext (String.toList_injective htext)
  exact ⟨rfl, (List.cons.inj (List.append_cancel_left h)).2⟩

end Text.Blanks

namespace BlockHeader

open Text (Blanks)

/-! ## Writing -/

/-- A block header as text, with blanks before the word, after it, before the
    brace and after it. -/
def write (b : BlockHeader) (w₁ w₂ w₃ w₄ : Blanks) : String :=
  w₁.text ++ b.kind.word ++ w₂.text ++ "(" ++ b.condition ++ ")" ++ w₃.text ++ "\x7b" ++ w₄.text

/-- What is written after the word, up to the brace. -/
def tail (condition : List Char) (w₂ w₃ : Blanks) : List Char :=
  w₂.text.toList ++ '(' :: (condition ++ ')' :: w₃.text.toList)

theorem toList_write (b : BlockHeader) (w₁ w₂ w₃ w₄ : Blanks) :
    (b.write w₁ w₂ w₃ w₄).toList = w₁.text.toList ++ (b.kind.word.toList ++
      (tail b.condition.toList w₂ w₃ ++ '\x7b' :: w₄.text.toList)) := by
  simp [write, tail]

/-- The first letter of the word is not blank. -/
theorem exists_word_eq_cons (kind : BlockKind) :
    ∃ d word, kind.word.toList = d :: word ∧ Text.isBlank d = false := by
  obtain ⟨d, word, hword, hd⟩ := exists_word_eq kind
  exact ⟨d, word, hword, by rcases hd with rfl | rfl <;> decide⟩

/-! ## Reading what is written -/

theorem trim_write (b : BlockHeader) (w₁ w₂ w₃ w₄ : Blanks) :
    Text.trim (b.write w₁ w₂ w₃ w₄).toList =
      b.kind.word.toList ++ (tail b.condition.toList w₂ w₃ ++ ['\x7b']) := by
  obtain ⟨d, word, hword, hd⟩ := exists_word_eq_cons b.kind
  rw [toList_write, hword, List.cons_append, Text.trim, Text.trimStart_append w₁.isBlank hd,
    ← List.cons_append, ← List.append_assoc, Text.trimEnd_append w₄.isBlank (by decide)]
  simp

/-- The two words begin with different letters. -/
theorem kind?_word_append (kind : BlockKind) (rest : List Char) :
    kind? (kind.word.toList ++ rest) = some (kind, rest) := by
  have hword : kind.word.toList.isPrefixOf? (kind.word.toList ++ rest) = some rest :=
    List.isPrefixOf?_eq_some_iff_append_eq.2 rfl
  unfold kind?
  cases kind with
  | conditional => rw [hword]
  | loop =>
    have hif : BlockKind.conditional.word.toList.isPrefixOf?
      (BlockKind.loop.word.toList ++ rest) = none := rfl
    rw [hif, hword]
    rfl

/-- The condition is what stands between the first opening and the last closing
    parenthesis. -/
theorem condition?_tail (condition : List Char) (w₂ w₃ : Blanks) :
    condition? (tail condition w₂ w₃ ++ ['\x7b']) = some condition := by
  have hstart : Text.trimStart (tail condition w₂ w₃ ++ ['\x7b']) =
      ['('] ++ (condition ++ ')' :: w₃.text.toList ++ ['\x7b']) := by
    rw [tail, List.append_assoc, List.cons_append]
    exact Text.trimStart_append w₂.isBlank (by decide) _
  have hend : Text.trimEnd (condition ++ ')' :: w₃.text.toList) = condition ++ [')'] :=
    Text.trimEnd_append w₃.isBlank (by decide) condition
  rw [condition?, hstart, List.isPrefixOf?_eq_some_iff_append_eq.2 rfl]
  dsimp only [bind, Option.bind]
  rw [List.isSuffixOf?_eq_some_iff_append_eq.2 rfl]
  dsimp only
  rw [hend, List.isSuffixOf?_eq_some_iff_append_eq.2 rfl]

theorem ofText?_write (b : BlockHeader) (w₁ w₂ w₃ w₄ : Blanks) :
    ofText? (b.write w₁ w₂ w₃ w₄) = some b := by
  rw [ofText?, trim_write, kind?_word_append]
  dsimp only [bind, Option.bind]
  rw [condition?_tail]
  simp

/-! ## What can be read -/

theorem exists_eq_write {text : String} {b : BlockHeader} (h : ofText? text = some b) :
    ∃ w₁ w₂ w₃ w₄, text = b.write w₁ w₂ w₃ w₄ := by
  obtain ⟨gap₂, gap₃, htrim, hgap₂, hgap₃⟩ := exists_trim_eq h
  obtain ⟨gap₁, gap₄, htext, hgap₁, hgap₄⟩ := Text.exists_eq_append_trim text.toList
  refine ⟨.ofList gap₁ hgap₁, .ofList gap₂ hgap₂, .ofList gap₃ hgap₃, .ofList gap₄ hgap₄, ?_⟩
  apply String.toList_injective
  rw [htext, htrim, toList_write]
  simp [tail, Blanks.ofList]

/-- **What was written can be told from the text**, the blanks too. -/
theorem write_injective {b b' : BlockHeader} {w₁ w₂ w₃ w₄ w₁' w₂' w₃' w₄' : Blanks}
    (h : b.write w₁ w₂ w₃ w₄ = b'.write w₁' w₂' w₃' w₄') :
    b = b' ∧ w₁ = w₁' ∧ w₂ = w₂' ∧ w₃ = w₃' ∧ w₄ = w₄' := by
  obtain rfl : b = b' := by
    have hread := ofText?_write b w₁ w₂ w₃ w₄
    rw [h, ofText?_write] at hread
    exact (Option.some.inj hread).symm
  obtain ⟨d, word, hword, hd⟩ := exists_word_eq_cons b.kind
  have hlists := congrArg String.toList h
  rw [toList_write, toList_write, hword] at hlists
  obtain ⟨rfl, hrest⟩ := Blanks.append_cons_inj hd hlists
  have htails := List.append_cancel_left hrest
  simp only [tail, List.append_assoc, List.cons_append] at htails
  obtain ⟨rfl, hcondition⟩ := Blanks.append_cons_inj (by decide) htails
  obtain ⟨rfl, hw₄⟩ :=
    Blanks.append_cons_inj (by decide) (List.cons.inj (List.append_cancel_left hcondition)).2
  exact ⟨rfl, rfl, rfl, rfl, Blanks.ext (String.toList_injective hw₄)⟩

/-- **A text reads as a block header if it is written as that header.** Every
    condition is given back as it was written, and a text is written in one way
    only. -/
theorem ofText?_eq_some_iff_write :
    (∀ text kind condition, ofText? text = some ⟨kind, condition⟩ ↔
      ∃ w₁ w₂ w₃ w₄ : Blanks, text = w₁.text ++ kind.word ++ w₂.text ++ "(" ++ condition ++ ")" ++
        w₃.text ++ "\x7b" ++ w₄.text) ∧
    (∀ (b : BlockHeader) (w₁ w₂ w₃ w₄ : Blanks), ofText? (b.write w₁ w₂ w₃ w₄) = some b) ∧
    ∀ (b b' : BlockHeader) (w₁ w₂ w₃ w₄ w₁' w₂' w₃' w₄' : Blanks),
      b.write w₁ w₂ w₃ w₄ = b'.write w₁' w₂' w₃' w₄' ↔
        b = b' ∧ w₁ = w₁' ∧ w₂ = w₂' ∧ w₃ = w₃' ∧ w₄ = w₄' := by
  refine ⟨?_, ofText?_write, ?_⟩
  · intro text kind condition
    constructor
    · exact exists_eq_write
    · rintro ⟨w₁, w₂, w₃, w₄, rfl⟩
      exact ofText?_write ⟨kind, condition⟩ w₁ w₂ w₃ w₄
  · intro b b' w₁ w₂ w₃ w₄ w₁' w₂' w₃' w₄'
    constructor
    · exact write_injective
    · rintro ⟨rfl, rfl, rfl, rfl, rfl⟩
      rfl

/-- A condition of brackets and blanks, with blanks around the header. -/
example : ofText? "\u3000if ( ) \x7b )\t\x7b " = some ⟨.conditional, " ) \x7b "⟩ := by
  decide +kernel

end BlockHeader

end LineCheck
