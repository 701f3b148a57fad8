import LineCheck.Proofs.Printing

/-!
The kinds of the lines that can be read.

The kind of a line is told from its first and last characters, a statement and a
method header are read from their tokens, and a block header from the text of
the line without the blanks at its ends. All agree: between its first and its
last token a line may hold what it likes, quoted braces and semicolons too, and
outside them there are only gaps, which are blank (`LineKind.ofChars?_of_scan`);
a block header begins with its word and ends with its brace
(`BlockHeader.exists_trim_eq`). So the kind of a line hides nothing that can be
read (`kind_of_readable`).
-/

namespace LineCheck

/-! ## Blanks at the ends -/

namespace Text

theorem trimStart_append {gap : List Char} (hgap : ∀ d ∈ gap, isBlank d = true) {c : Char}
    (hc : isBlank c = false) (text : List Char) : trimStart (gap ++ c :: text) = c :: text := by
  rw [trimStart, List.dropWhile_append_of_pos hgap, List.dropWhile_cons_of_neg (by simp [hc])]

theorem trimEnd_append {gap : List Char} (hgap : ∀ d ∈ gap, isBlank d = true) {c : Char}
    (hc : isBlank c = false) (text : List Char) : trimEnd (text ++ c :: gap) = text ++ [c] := by
  have hreverse : (text ++ c :: gap).reverse = gap.reverse ++ c :: text.reverse := by simp
  have hgap' : ∀ d ∈ gap.reverse, isBlank d = true := fun d hd => hgap d (List.mem_reverse.1 hd)
  rw [trimEnd, hreverse, ← trimStart, trimStart_append hgap' hc]
  simp

theorem exists_eq_append_trimStart (text : List Char) :
    ∃ gap, text = gap ++ trimStart text ∧ ∀ c ∈ gap, isBlank c = true :=
  ⟨text.takeWhile isBlank, List.takeWhile_append_dropWhile.symm,
    List.all_eq_true.1 List.all_takeWhile⟩

theorem exists_eq_trimEnd_append (text : List Char) :
    ∃ gap, text = trimEnd text ++ gap ∧ ∀ c ∈ gap, isBlank c = true := by
  obtain ⟨gap, htext, hgap⟩ := exists_eq_append_trimStart text.reverse
  refine ⟨gap.reverse, ?_, fun c hc => hgap c (List.mem_reverse.1 hc)⟩
  rw [trimEnd, ← trimStart, ← List.reverse_append, ← htext, List.reverse_reverse]

theorem exists_eq_append_trim (text : List Char) :
    ∃ gap gap', text = gap ++ trim text ++ gap' ∧ (∀ c ∈ gap, isBlank c = true) ∧
      ∀ c ∈ gap', isBlank c = true := by
  obtain ⟨gap, hstart, hgap⟩ := exists_eq_append_trimStart text
  obtain ⟨gap', hend, hgap'⟩ := exists_eq_trimEnd_append (trimStart text)
  refine ⟨gap, gap', ?_, hgap, hgap'⟩
  rw [trim, List.append_assoc, ← hend, ← hstart]

theorem isBlank_of_isGap {c : Char} (h : Token.isGap c = true) : isBlank c = true := by
  simp only [Token.isGap, Bool.or_eq_true, beq_iff_eq] at h
  rcases h with ((rfl | rfl) | rfl) | rfl <;> decide

/-- No part of a word is blank. -/
theorem isWordPart_of_isBlank {c : Char} (h : isBlank c = true) : Token.isWordPart c = false := by
  have hunderscore : c ≠ '_' := by
    rintro rfl
    exact absurd h (by decide)
  have hblank : c.toNat ≤ 32 ∨ 133 ≤ c.toNat := by
    simp [isBlank, blankRanges] at h
    omega
  have hletter : c.isAlpha = false := by
    refine Bool.eq_false_iff.2 fun hc => ?_
    have hletters := Token.isAlpha_iff_toNat.1 hc
    omega
  have hdigit : c.isDigit = false := by
    refine Bool.eq_false_iff.2 fun hc => ?_
    have hdigits : 48 ≤ c.toNat ∧ c.toNat ≤ 57 := Char.isDigit_iff_toNat.1 hc
    omega
  simp [Token.isWordPart, Char.isAlphanum, hunderscore, hletter, hdigit]

end Text

/-! ## The first and the last token -/

namespace Token

theorem exists_eq_append_of_scan_cons {text : List Char} {t : Token} {ts : List Token}
    (h : scan text = some (t :: ts)) :
    ∃ gap rest, text = gap ++ t.text.toList ++ rest ∧ (∀ c ∈ gap, isGap c = true) ∧
      next? (t.text.toList ++ rest) = some (t, rest) ∧ t.text.toList ≠ [] ∧
        scan rest = some ts := by
  obtain ⟨rest, hnext, hrest⟩ := scan_eq_cons_iff.1 h
  obtain ⟨hne, hreads⟩ := reads_of_next? hnext
  rw [hreads] at hnext
  refine ⟨text.takeWhile isGap, rest, ?_, List.all_eq_true.1 List.all_takeWhile, hnext, hne, hrest⟩
  rw [List.append_assoc, ← hreads, List.takeWhile_append_dropWhile]

/-- Only gaps follow the last token. -/
theorem exists_eq_append_of_scan_concat {text : List Char} {ts : List Token} {t : Token}
    (h : scan text = some (ts ++ [t])) :
    ∃ front gap, text = front ++ t.text.toList ++ gap ∧ ∀ c ∈ gap, isGap c = true := by
  induction ts generalizing text with
  | nil =>
    obtain ⟨front, gap, rfl, -, -, -, hgap⟩ := exists_eq_append_of_scan_cons h
    exact ⟨front, gap, rfl, scan_eq_nil_iff.1 hgap⟩
  | cons u ts ih =>
    obtain ⟨gap₀, rest, rfl, -, -, -, hrest⟩ := exists_eq_append_of_scan_cons h
    obtain ⟨front, gap, rfl, hgap⟩ := ih hrest
    exact ⟨gap₀ ++ u.text.toList ++ front, gap, by simp only [List.append_assoc], hgap⟩

theorem isBlank_of_mem_symbol {s : Symbol} {c : Char} (h : c ∈ s.text.toList) :
    Text.isBlank c = false := by
  have hall : s.text.toList.all (!Text.isBlank ·) = true := by cases s <;> decide
  simpa using List.all_eq_true.1 hall c h

/-- Tokens that are neither symbols nor literals are words. -/
theorem isWord_text_of_wellFormed {t : Token} (h : t.WellFormed) (hsymbol : ∀ s, t ≠ symbol s)
    (hliteral : ∀ l, t ≠ literal l) : IsWord t.text.toList := by
  cases t with
  | keyword k => exact isWord_text (by cases k <;> decide)
  | type ty => exact isWord_text (by cases ty <;> decide)
  | ident name => exact ((wellFormed_ident name).1 h).1
  | symbol s => exact absurd rfl (hsymbol s)
  | literal l => exact absurd rfl (hliteral l)

end Token

/-! ## Kinds -/

namespace LineKind

open Token

/-- The last character tells the kind of a text that begins with a word and is
    no return, blanks at both ends apart. -/
theorem ofChars?_eq {gap gap' body : List Char} {d c : Char}
    (hgap : ∀ g ∈ gap, Text.isBlank g = true)
    (hgap' : ∀ g ∈ gap', Text.isBlank g = true) (hd : isWordPart d = true)
    (hc : Text.isBlank c = false) (hbare : isBareReturn (d :: body ++ [c]) = false) :
    ofChars? (gap ++ d :: (body ++ c :: gap')) =
      if c = '\x7b' then some blockOpen else if c = ';' then some statement else none := by
  have hdblank : Text.isBlank d = false := by
    refine Bool.eq_false_iff.2 fun hblank => ?_
    rw [Text.isWordPart_of_isBlank hblank] at hd
    cases hd
  have htrim : Text.trim (gap ++ d :: (body ++ c :: gap')) = d :: body ++ [c] := by
    rw [Text.trim, Text.trimStart_append hgap hdblank, ← List.cons_append,
      Text.trimEnd_append hgap' hc]
  have htrimEnd : Text.trimEnd (gap ++ d :: (body ++ c :: gap')) = gap ++ d :: body ++ [c] := by
    rw [← List.cons_append, ← List.append_assoc, Text.trimEnd_append hgap' hc]
  have hcomment : "//".toList.isPrefixOf (gap ++ d :: (body ++ c :: gap')) = false := by
    refine Bool.eq_false_iff.2 fun hslashes => ?_
    obtain ⟨tail, htail⟩ := List.isPrefixOf_iff_prefix.1 hslashes
    cases gap with
    | nil =>
      obtain rfl : '/' = d := (List.cons.inj htail).1
      exact absurd hd (by decide)
    | cons g gap =>
      obtain rfl : '/' = g := (List.cons.inj htail).1
      exact absurd (hgap '/' (by simp)) (by decide)
  have hlength : 1 < (gap ++ d :: body ++ [c]).length := by
    simp only [List.length_append, List.length_cons, List.length_nil]
    omega
  simp only [ofChars?, hcomment, htrim, htrimEnd, hbare, hlength, and_true, List.getLast?_concat]
  simp

/-- The word `return` at the start of a text, with a blank or a semicolon after
    it, is its first token. -/
theorem isBareReturn_eq_false {text front : List Char} {t : Token} {rest : List Char}
    (hnext : next? (text ++ front) = some (t, rest)) (hreturn : t ≠ keyword .returnWord) :
    isBareReturn text = false := by
  cases hafter : "return".toList.isPrefixOf? text with
  | none => simp only [isBareReturn, hafter]
  | some tail =>
    simp only [isBareReturn, hafter, beq_eq_false_iff_ne, ne_eq]
    intro htail
    -- the tail is not empty, and its first character ends the word
    have hends : ∀ c ∈ (tail ++ front).head?, isWordPart c = false := by
      cases tail with
      | nil => simp [Text.trimStart] at htail
      | cons d tail =>
        rintro c ⟨⟩
        by_cases hblank : Text.isBlank d = true
        · exact Text.isWordPart_of_isBlank hblank
        · rw [Text.trimStart, List.dropWhile_cons_of_neg hblank] at htail
          cases htail
          decide
    have hword : IsWord "return".toList := isWord_text (t := keyword .returnWord) (by decide)
    rw [← List.append_eq_of_isPrefixOf?_eq_some hafter, List.append_assoc,
      next?_word hword hends] at hnext
    cases hnext
    exact hreturn (by decide)

/-- **The last token tells the kind of a line**, if the first is a word, and not
    `return`. -/
theorem ofChars?_of_scan {text : List Char} {t : Token} {ts : List Token} {s : Symbol} {c : Char}
    (h : scan text = some (t :: ts ++ [symbol s])) (hs : (symbol s).text.toList = [c])
    (hword : IsWord t.text.toList) (hreturn : t ≠ keyword .returnWord) :
    ofChars? text =
      if c = '\x7b' then some blockOpen else if c = ';' then some statement else none := by
  obtain ⟨gap, rest, rfl, hgap, hnext, -, hrest⟩ := exists_eq_append_of_scan_cons h
  obtain ⟨front, gap', rfl, hgap'⟩ := exists_eq_append_of_scan_concat hrest
  obtain ⟨d, word, hd, hstart, -⟩ := hword
  have hpart : isWordPart d = true := by
    rcases hstart with hstart | ⟨rfl, -⟩
    · simp [isWordPart, Char.isAlphanum, hstart]
    · decide
  have hblank : Text.isBlank c = false :=
    isBlank_of_mem_symbol (s := s) (hs ▸ List.mem_singleton_self c)
  have hbare : isBareReturn (d :: (word ++ front) ++ [c]) = false := by
    have heq : t.text.toList ++ (front ++ (symbol s).text.toList ++ gap') =
        d :: (word ++ front) ++ [c] ++ gap' := by
      simp [hd, hs]
    rw [heq] at hnext
    exact isBareReturn_eq_false hnext hreturn
  have hkind := ofChars?_eq (fun g hg => Text.isBlank_of_isGap (hgap g hg))
    (fun g hg => Text.isBlank_of_isGap (hgap' g hg)) hpart hblank hbare
  rw [← hkind, hd, hs]
  simp

/-- A statement begins with a word, and ends in a semicolon. -/
theorem exists_tokens_eq (st : Statement) :
    ∃ t ts, st.tokens = t :: ts ++ [symbol .semicolon] ∧ t ≠ keyword .returnWord ∧
      (∀ s, t ≠ symbol s) ∧ ∀ l, t ≠ literal l := by
  cases st with
  | declaration d =>
    obtain ⟨isFinal, ty, items⟩ := d
    cases isFinal with
    | true => exact ⟨keyword .finalWord, type ty :: commaJoin (items.map Declarator.tokens), rfl,
        by decide, nofun, nofun⟩
    | false => exact ⟨type ty, commaJoin (items.map Declarator.tokens), rfl, nofun, nofun, nofun⟩
  | assignment a => exact ⟨ident a.name, [symbol .assign, a.value.token], rfl, nofun, nofun, nofun⟩
  | call c =>
    refine ⟨ident c.name, symbol .openParen :: commaJoin (c.args.map fun arg => [arg.token]) ++
      [symbol .closeParen], ?_, nofun, nofun, nofun⟩
    simp [Statement.tokens, Call.tokens]

/-- **A line that reads as a statement is of that kind.** -/
theorem ofText?_of_statement {text : String} {st : Statement}
    (h : Statement.ofText? text = some st) :
    ofText? text = some statement := by
  have hscan : scan text.toList = some st.tokens := (Statement.ofText?_eq_some_iff.1 h).1
  have hwellFormed := wellFormed_of_scan hscan
  obtain ⟨t, ts, htokens, hreturn, hsymbol, hliteral⟩ := exists_tokens_eq st
  rw [htokens] at hscan hwellFormed
  have hword := isWord_text_of_wellFormed (hwellFormed t (by simp)) hsymbol hliteral
  exact ofChars?_of_scan hscan rfl hword hreturn

/-- **A line that reads as a method header opens a block.** -/
theorem ofText?_of_methodHeader {text : String} {m : MethodHeader}
    (h : MethodHeader.ofText? text = some m) : ofText? text = some blockOpen := by
  have hscan : scan text.toList = some m.tokens := (MethodHeader.ofText?_eq_some_iff.1 h).1
  have htokens : m.tokens = keyword .voidWord :: (ident m.name :: symbol .openParen ::
      commaJoin (m.params.map Parameter.tokens) ++ [symbol .closeParen]) ++
        [symbol .openBrace] := by
    simp [MethodHeader.tokens]
  rw [htokens] at hscan
  exact ofChars?_of_scan hscan rfl (isWord_text (by decide)) (by decide)

end LineKind

/-! ## Block headers -/

namespace BlockHeader

theorem eq_append_of_kind? {text rest : List Char} {kind : BlockKind}
    (h : kind? text = some (kind, rest)) : text = kind.word.toList ++ rest := by
  unfold kind? at h
  cases hif : BlockKind.conditional.word.toList.isPrefixOf? text with
  | some rest' =>
    rw [hif] at h
    cases h
    exact (List.append_eq_of_isPrefixOf?_eq_some hif).symm
  | none =>
    rw [hif] at h
    obtain ⟨rest', hwhile, heq⟩ := Option.map_eq_some_iff.1 h
    cases heq
    exact (List.append_eq_of_isPrefixOf?_eq_some hwhile).symm

theorem exists_eq_of_condition? {text condition : List Char}
    (h : condition? text = some condition) :
    ∃ gap gap', text = gap ++ '(' :: condition ++ ')' :: gap' ++ ['\x7b'] ∧
      (∀ c ∈ gap, Text.isBlank c = true) ∧ ∀ c ∈ gap', Text.isBlank c = true := by
  obtain ⟨opened, hopened, h⟩ := Option.bind_eq_some_iff.1 h
  obtain ⟨closed, hclosed, hcondition⟩ := Option.bind_eq_some_iff.1 h
  obtain ⟨gap, hgap, hblank⟩ := Text.exists_eq_append_trimStart text
  obtain ⟨gap', hgap', hblank'⟩ := Text.exists_eq_trimEnd_append closed
  refine ⟨gap, gap', ?_, hblank, hblank'⟩
  rw [← List.append_eq_of_isSuffixOf?_eq_some hcondition] at hgap'
  rw [← List.append_eq_of_isPrefixOf?_eq_some hopened,
    ← List.append_eq_of_isSuffixOf?_eq_some hclosed, hgap'] at hgap
  simpa using hgap

/-- **A block header is its word, its condition in parentheses and a brace**,
    with blanks between them and at the ends. -/
theorem exists_trim_eq {text : String} {b : BlockHeader} (h : ofText? text = some b) :
    ∃ gap gap', Text.trim text.toList = b.kind.word.toList ++ (gap ++ '(' :: b.condition.toList ++
      ')' :: gap' ++ ['\x7b']) ∧ (∀ c ∈ gap, Text.isBlank c = true) ∧
        ∀ c ∈ gap', Text.isBlank c = true := by
  obtain ⟨⟨kind, rest⟩, hkind, h⟩ := Option.bind_eq_some_iff.1 h
  obtain ⟨condition, hcondition, h⟩ := Option.bind_eq_some_iff.1 h
  cases h
  obtain ⟨gap, gap', hrest, hblank, hblank'⟩ := exists_eq_of_condition? hcondition
  refine ⟨gap, gap', ?_, hblank, hblank'⟩
  rw [eq_append_of_kind? hkind, hrest, String.toList_ofList]

theorem exists_word_eq (kind : BlockKind) :
    ∃ d word, kind.word.toList = d :: word ∧ (d = 'i' ∨ d = 'w') := by
  cases kind with
  | conditional => exact ⟨'i', ['f'], by decide, .inl rfl⟩
  | loop => exact ⟨'w', ['h', 'i', 'l', 'e'], by decide, .inr rfl⟩

/-- The first letter of a block header is that of its word. -/
theorem exists_eq_append {text : String} {b : BlockHeader} (h : ofText? text = some b) :
    ∃ gap d body gap', text.toList = gap ++ d :: (body ++ '\x7b' :: gap') ∧ (d = 'i' ∨ d = 'w') ∧
      (∀ c ∈ gap, Text.isBlank c = true) ∧ ∀ c ∈ gap', Text.isBlank c = true := by
  obtain ⟨inner, inner', htrim, -, -⟩ := exists_trim_eq h
  obtain ⟨gap, gap', htext, hblank, hblank'⟩ := Text.exists_eq_append_trim text.toList
  obtain ⟨d, word, hword, hd⟩ := exists_word_eq b.kind
  refine ⟨gap, d, word ++ inner ++ '(' :: b.condition.toList ++ ')' :: inner', gap', ?_, hd, hblank,
    hblank'⟩
  rw [htext, htrim, hword]
  simp

end BlockHeader

/-- **A line that reads as a block header opens a block.** -/
theorem LineKind.ofText?_of_blockHeader {text : String} {b : BlockHeader}
    (h : BlockHeader.ofText? text = some b) : ofText? text = some blockOpen := by
  obtain ⟨gap, d, body, gap', htext, hd, hblank, hblank'⟩ := BlockHeader.exists_eq_append h
  have hpart : Token.isWordPart d = true := by rcases hd with rfl | rfl <;> decide
  have hbare : isBareReturn (d :: body ++ ['\x7b']) = false := by rcases hd with rfl | rfl <;> rfl
  rw [ofText?, htext, ofChars?_eq hblank hblank' hpart (by decide) hbare, if_pos rfl]

/-! ## Readable lines -/

/-- No line reads as the header of a method and of a block: the first letter
    decides. -/
theorem blockHeader_eq_none_of_methodHeader {text : String} {m : MethodHeader}
    (h : MethodHeader.ofText? text = some m) : BlockHeader.ofText? text = none := by
  refine Option.eq_none_iff_forall_ne_some.2 fun b hb => ?_
  obtain ⟨gap, rest, htext, hgap, -⟩ :=
    Token.exists_eq_append_of_scan_cons (MethodHeader.ofText?_eq_some_iff.1 h).1
  obtain ⟨gap', d, body, gap'', htext', hd, hblank, -⟩ := BlockHeader.exists_eq_append hb
  have hdblank : Text.isBlank d = false := by rcases hd with rfl | rfl <;> decide
  have hmethod : Text.trimStart text.toList = 'v' :: ("oid".toList ++ rest) := by
    rw [htext, List.append_assoc]
    exact Text.trimStart_append (fun c hc => Text.isBlank_of_isGap (hgap c hc)) (by decide) _
  have hblock : Text.trimStart text.toList = d :: (body ++ '\x7b' :: gap'') := by
    rw [htext', Text.trimStart_append hblank hdblank]
  obtain rfl : 'v' = d := (List.cons.inj (hmethod.symm.trans hblock)).1
  rcases hd with hd | hd <;> exact absurd hd (by decide)

theorem statement_eq_none_of_blockOpen {text : String}
    (h : LineKind.ofText? text = some .blockOpen) :
    Statement.ofText? text = none := by
  refine Option.eq_none_iff_forall_ne_some.2 fun st hst => ?_
  rw [LineKind.ofText?_of_statement hst] at h
  cases h

/-- **The kind of a line hides nothing that can be read.** A line that reads as
    a statement is of that kind, and a line that reads as the header of a method
    or of a block opens a block. A line reads as at most one of the three, and a
    line of any other kind, or of none, as nothing. -/
theorem kind_of_readable (text : String) :
    ((Statement.ofText? text).isSome = true → LineKind.ofText? text = some .statement) ∧
    ((MethodHeader.ofText? text).isSome = true ∨ (BlockHeader.ofText? text).isSome = true →
      LineKind.ofText? text = some .blockOpen) ∧
    [(Statement.ofText? text).isSome, (MethodHeader.ofText? text).isSome,
      (BlockHeader.ofText? text).isSome].count true ≤ 1 ∧
    ((∀ kind ∈ LineKind.ofText? text, kind ∈ [.comment, .blank, .returnLine, .blockClose]) →
      Statement.ofText? text = none ∧ MethodHeader.ofText? text = none ∧
        BlockHeader.ofText? text = none) := by
  refine ⟨?_, ?_, ?_, ?_⟩
  · intro h
    obtain ⟨st, hst⟩ := Option.isSome_iff_exists.1 h
    exact LineKind.ofText?_of_statement hst
  · rintro (h | h)
    · obtain ⟨m, hm⟩ := Option.isSome_iff_exists.1 h
      exact LineKind.ofText?_of_methodHeader hm
    · obtain ⟨b, hb⟩ := Option.isSome_iff_exists.1 h
      exact LineKind.ofText?_of_blockHeader hb
  · -- the kind tells headers from statements, and the first letter tells the headers apart
    cases hm : MethodHeader.ofText? text with
    | some m =>
      rw [statement_eq_none_of_blockOpen (LineKind.ofText?_of_methodHeader hm),
        blockHeader_eq_none_of_methodHeader hm]
      exact Nat.le_refl 1
    | none =>
      cases hb : BlockHeader.ofText? text with
      | some b =>
        rw [statement_eq_none_of_blockOpen (LineKind.ofText?_of_blockHeader hb)]
        exact Nat.le_refl 1
      | none => cases (Statement.ofText? text).isSome <;> decide
  · intro hkind
    refine ⟨?_, ?_, ?_⟩
    · refine Option.eq_none_iff_forall_ne_some.2 fun st hst => ?_
      exact absurd (hkind _ (LineKind.ofText?_of_statement hst)) (by decide)
    · refine Option.eq_none_iff_forall_ne_some.2 fun m hm => ?_
      exact absurd (hkind _ (LineKind.ofText?_of_methodHeader hm)) (by decide)
    · refine Option.eq_none_iff_forall_ne_some.2 fun b hb => ?_
      exact absurd (hkind _ (LineKind.ofText?_of_blockHeader hb)) (by decide)

/-- Quoted braces, semicolons and slashes do not mislead, and blanks that are no
    gaps may stand around a block header. -/
theorem kind_of_quoted_brackets :
    LineKind.ofText? " s = \x22// \x7d; \x7b\x22 ;" = some .statement ∧
    LineKind.ofText? "void f(char c = '\x7d') \x7b\t" = some .blockOpen ∧
    LineKind.ofText? "\u00a0while(\x22; ) \x7d\x22)\u3000\x7b" = some .blockOpen ∧
    Statement.ofText? "return ;" = none :=
  ⟨(kind_of_readable _).1 (by decide +kernel), (kind_of_readable _).2.1 (.inl (by decide +kernel)),
    (kind_of_readable _).2.1 (.inr (by decide +kernel)),
    ((kind_of_readable _).2.2.2 (by decide +kernel)).1⟩

end LineCheck
