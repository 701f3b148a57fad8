import LineCheck.Check
import LineCheck.Proofs.Grammar

/-!
How names and values are written.

`Ty.Spells` gives the texts of the values of each type, and `Token.WellFormed`
the texts of the single tokens, both without regard to how they are scanned. The
scanner reads no other tokens (`Token.wellFormed_of_scan`), so the operands of a
statement are spelled as their types require (`Statement.isProper_of_ofText?`).
A type that accepts another one also accepts its spellings
(`Ty.spells_of_accepts`). A string ends where its body does not close it early
(`Token.cutAtQuote_append_quote_iff`).
-/

namespace LineCheck

/-! ## Spellings -/

/-- At least one digit and nothing else. -/
def IsDigits (text : List Char) : Prop :=
  text ≠ [] ∧ ∀ c ∈ text, c.isDigit = true

/-- Digits, with a minus sign before them or without. -/
def IsInteger (text : List Char) : Prop :=
  IsDigits text ∨ ∃ digits, text = '-' :: digits ∧ IsDigits digits

/-- An integer, a point and digits. -/
def IsDecimal (text : List Char) : Prop :=
  ∃ whole fraction, text = whole ++ '.' :: fraction ∧ IsInteger whole ∧ IsDigits fraction

/-- The texts of the values of a type. -/
def Ty.Spells : Ty → List Char → Prop
  | int, text => IsInteger text
  | double, text => IsInteger text ∨ IsDecimal text
  | boolean, text => text = "true".toList ∨ text = "false".toList ∨ IsInteger text ∨ IsDecimal text
  | char, text => ∃ c, c ≠ '\n' ∧ text = ['\x27', c, '\x27']
  | string, text => 2 ≤ text.length ∧ text.head? = some '\x22' ∧ text.getLast? = some '\x22'

/-- A type that accepts another one accepts what is spelled for it. -/
theorem Ty.spells_of_accepts {target source : Ty} (h : target.accepts source = true)
    {text : List Char} (hs : source.Spells text) : target.Spells text := by
  by_cases heq : target = source
  · rw [heq]
    exact hs
  · obtain ⟨hwide, hnumeric⟩ : target.isWide = true ∧ source.isNumeric = true := by
      simpa [accepts, heq] using h
    have hnumber : IsInteger text ∨ IsDecimal text := by
      cases source with
      | int => exact .inl hs
      | double => exact hs
      | string | char | boolean => cases hnumeric
    cases target with
    | double => exact hnumber
    | boolean => exact .inr (.inr hnumber)
    | int | string | char => cases hwide

/-- A literal is spelled as a value of its type. -/
def Literal.IsProper (l : Literal) : Prop :=
  l.ty.Spells l.text.toList

/-! ## Well-formed tokens -/

/-- A letter, and then letters, digits and underscores; or an underscore, and
    then at least one of these. -/
def IsWord (text : List Char) : Prop :=
  ∃ c rest, text = c :: rest ∧ (c.isAlpha = true ∨ c = '_' ∧ rest ≠ []) ∧
    ∀ d ∈ rest, d.isAlphanum = true ∨ d = '_'

/-- A word that is not reserved. -/
def IsName (name : String) : Prop :=
  IsWord name.toList ∧ ∀ t ∈ Token.reserved, t.text ≠ name

/-- Whether a quote in the body of a string is followed in the body, blanks
    apart, by a comma, a semicolon or a closing parenthesis. -/
def closesEarly : List Char → Bool
  | [] => false
  | c :: text =>
    (c == '\x22' && (Text.trimStart text).head?.any fun d => d == ',' || d == ';' || d == ')')
      || closesEarly text

/-- A literal is written as literals of its form are. -/
def Literal.WellFormed : Literal → Prop
  | int text => IsInteger text.toList
  | double text => IsDecimal text.toList
  | char text => ∃ c, c ≠ '\n' ∧ text.toList = ['\x27', c, '\x27']
  | str text => ∃ body, text.toList = '\x22' :: body ++ ['\x22'] ∧ closesEarly body = false
  | bool _ => True

theorem Literal.WellFormed.isProper {l : Literal} (h : l.WellFormed) : l.IsProper := by
  cases l with
  | int text => exact h
  | double text => exact .inr h
  | char text => exact h
  | str text =>
    obtain ⟨body, hbody, -⟩ := h
    show Ty.Spells .string text.toList
    rw [hbody]
    exact ⟨by simp, rfl, List.getLast?_concat⟩
  | bool value =>
    cases value with
    | true => exact .inl rfl
    | false => exact .inr (.inl rfl)

namespace Token

/-- If a token is a literal, it is spelled as it should be. -/
def IsProper : Token → Prop
  | literal l => l.IsProper
  | _ => True

/-- Names and literals are written as they should be. -/
def WellFormed : Token → Prop
  | ident name => IsName name
  | literal l => l.WellFormed
  | keyword _ | type _ | symbol _ => True

/-! ## Scanned tokens -/

theorem wellFormed_of_mem_reserved {t : Token} (h : t ∈ reserved) : t.WellFormed := by
  simp only [reserved, Keyword.all, Ty.all, List.map_cons, List.map_nil, List.cons_append,
    List.nil_append, List.mem_cons, List.not_mem_nil, or_false] at h
  rcases h with rfl | rfl | rfl | rfl | rfl | rfl | rfl | rfl | rfl | rfl | rfl | rfl
  all_goals trivial

theorem wellFormed_ofWord {word : String} (h : IsWord word.toList) : (ofWord word).WellFormed := by
  unfold ofWord
  cases hfind : reserved.find? (·.text == word) with
  | none => exact ⟨h, by simpa using hfind⟩
  | some t => exact wellFormed_of_mem_reserved (List.mem_of_find?_eq_some hfind)

theorem wellFormed_of_word? {c : Char} {text : List Char} (hc : isWordStart c = true) {t : Token}
    {rest : List Char} (h : word? c text = some (t, rest)) : t.WellFormed := by
  unfold word? at h
  split at h
  · cases h
  · rename_i hlone
    cases h
    refine wellFormed_ofWord ⟨c, text.takeWhile isWordPart, String.toList_ofList, ?_, ?_⟩
    · by_cases hletter : c.isAlpha = true
      · exact .inl hletter
      · have hunderscore : c = '_' := by simpa [isWordStart, hletter] using hc
        exact .inr ⟨hunderscore, fun hnil => hlone ⟨hunderscore, hnil⟩⟩
    · intro d hd
      simpa [isWordPart] using List.all_eq_true.1 List.all_takeWhile d hd

theorem isDigits_cons_takeWhile {d : Char} (hd : d.isDigit = true) (text : List Char) :
    IsDigits (d :: text.takeWhile Char.isDigit) := by
  refine ⟨List.cons_ne_nil _ _, fun c hc => ?_⟩
  rcases List.mem_cons.1 hc with rfl | hc
  · exact hd
  · exact List.all_eq_true.1 (List.all_takeWhile) c hc

theorem isDigits_of_fraction? {text fraction rest : List Char}
    (h : fraction? text = some (fraction, rest)) :
    ∃ digits, fraction = '.' :: digits ∧ IsDigits digits := by
  unfold fraction? at h
  split at h
  · split at h
    · rename_i hd
      cases h
      exact ⟨_, rfl, isDigits_cons_takeWhile hd _⟩
    · cases h
  · cases h

theorem wellFormed_of_number? {sign text : List Char} (hsign : sign = [] ∨ sign = ['-']) {t : Token}
    {rest : List Char} (h : number? sign text = some (t, rest)) : t.WellFormed := by
  have hinteger : ∀ {digits}, IsDigits digits → IsInteger (sign ++ digits) := by
    intro digits hdigits
    rcases hsign with rfl | rfl
    · exact .inl hdigits
    · exact .inr ⟨digits, rfl, hdigits⟩
  unfold number? at h
  split at h
  · cases h
  · split at h
    · rename_i d text hd
      have hwhole := hinteger (isDigits_cons_takeWhile hd text)
      split at h
      · rename_i fraction rest' hf
        cases h
        obtain ⟨digits, rfl, hdigits⟩ := isDigits_of_fraction? hf
        exact ⟨_, digits, String.toList_ofList, hwhole, hdigits⟩
      · cases h
        simpa [WellFormed, Literal.WellFormed] using hwhole
    · cases h

/-- Before a quote only what stands before it decides whether an operand can end. -/
theorem followsOperand_append_quote (text rest : List Char) :
    followsOperand (text ++ quote :: rest) =
      (Text.trimStart text).head?.any fun d => d == ',' || d == ';' || d == ')' := by
  unfold followsOperand Text.trimStart
  rw [List.dropWhile_append]
  cases text.dropWhile Text.isBlank with
  | nil => rfl
  | cons c text => rfl

/-- **A string ends at the first quote that does not close it early**, if an
    operand can end there. -/
theorem cutAtQuote_append_quote_iff {body rest : List Char} :
    cutAtQuote followsOperand (body ++ quote :: rest) = some (body, rest) ↔
      closesEarly body = false ∧ followsOperand rest = true := by
  induction body with
  | nil =>
    rw [List.nil_append, cutAtQuote]
    by_cases h : followsOperand rest = true <;> simp [h, closesEarly]
  | cons c body ih =>
    have hquote : decide (c = quote) = (c == '\x22') := rfl
    rw [List.cons_append, cutAtQuote, followsOperand_append_quote, closesEarly, hquote]
    cases c == '\x22' &&
        (Text.trimStart body).head?.any fun d => d == ',' || d == ';' || d == ')' with
    | true => simp
    | false => simp [← ih]

theorem quote_not_mem_of_cutAtQuote {text body rest : List Char}
    (h : cutAtQuote (fun _ => true) text = some (body, rest)) : quote ∉ body := by
  fun_induction cutAtQuote (fun _ => true) text generalizing body with
  | case1 => cases h
  | case2 c text hc =>
    cases h
    simp
  | case3 c text hc ih =>
    obtain ⟨⟨b, r⟩, hb, heq⟩ := Option.map_eq_some_iff.1 h
    cases heq
    have hne : quote ≠ c := by
      rintro rfl
      simp at hc
    simp [hne, ih hb]

theorem closesEarly_of_not_mem {body : List Char} (h : quote ∉ body) :
    closesEarly body = false := by
  induction body with
  | nil => rfl
  | cons c body ih =>
    rw [List.mem_cons, not_or] at h
    have hc : (c == '\x22') = false := by simpa [quote] using Ne.symm h.1
    rw [closesEarly, hc, ih h.2, Bool.false_and, Bool.or_false]

theorem wellFormed_of_string? {text : List Char} {t : Token} {rest : List Char}
    (h : string? text = some (t, rest)) : t.WellFormed := by
  obtain ⟨⟨body, rest'⟩, hcut, heq⟩ := Option.map_eq_some_iff.1 h
  cases heq
  refine ⟨body, String.toList_ofList, ?_⟩
  cases hfirst : cutAtQuote followsOperand text with
  | some pair =>
    obtain rfl : pair = (body, rest) := by simpa [hfirst] using hcut
    rw [eq_of_cutAtQuote hfirst] at hfirst
    exact (cutAtQuote_append_quote_iff.1 hfirst).1
  | none =>
    have hcut' : cutAtQuote (fun _ => true) text = some (body, rest) := by simpa [hfirst] using hcut
    exact closesEarly_of_not_mem (quote_not_mem_of_cutAtQuote hcut')

theorem wellFormed_of_char? {text : List Char} {t : Token} {rest : List Char}
    (h : char? text = some (t, rest)) : t.WellFormed := by
  unfold char? at h
  split at h
  · split at h
    · rename_i c close rest' hc
      cases h
      exact ⟨c, hc.1, by simp [apostrophe]⟩
    · cases h
  · cases h

theorem wellFormed_of_symbol? {text : List Char} {t : Token} {rest : List Char}
    (h : symbol? text = some (t, rest)) : t.WellFormed := by
  obtain ⟨s, -, hs⟩ := List.exists_of_findSome?_eq_some h
  obtain ⟨rest', -, heq⟩ := Option.map_eq_some_iff.1 hs
  cases heq
  trivial

theorem wellFormed_of_next? {text : List Char} {t : Token} {rest : List Char}
    (h : next? text = some (t, rest)) : t.WellFormed := by
  revert h
  fun_cases next? text with
  | case1 =>
    intro h
    cases h
  | case2 c text hc => exact wellFormed_of_word? hc
  | case3 => exact wellFormed_of_number? (.inl rfl)
  | case4 => exact wellFormed_of_number? (.inr rfl)
  | case5 => exact wellFormed_of_string?
  | case6 => exact wellFormed_of_char?
  | case7 => exact wellFormed_of_symbol?

/-- **Every token that is scanned is well formed.** -/
theorem wellFormed_of_scan {ts : List Token} {text : List Char} (h : scan text = some ts) :
    ∀ t ∈ ts, t.WellFormed := by
  induction ts generalizing text with
  | nil => simp
  | cons t ts ih =>
    obtain ⟨rest, hnext, hrest⟩ := scan_eq_cons_iff.1 h
    rw [List.forall_mem_cons]
    exact ⟨wellFormed_of_next? hnext, ih hrest⟩

theorem WellFormed.isProper {t : Token} (h : t.WellFormed) : t.IsProper := by
  cases t with
  | literal l => exact Literal.WellFormed.isProper h
  | keyword | type | symbol | ident => trivial

/-- Every literal that is scanned is spelled as its type requires. -/
theorem isProper_of_scan {ts : List Token} {text : List Char} (h : scan text = some ts) :
    ∀ t ∈ ts, t.IsProper :=
  fun t ht => (wellFormed_of_scan h t ht).isProper

end Token

/-! ## Operands of statements -/

/-- If an operand is a literal, it is spelled as it should be. -/
def Operand.IsProper (o : Operand) : Prop :=
  o.token.IsProper

/-- The operand that a variable starts with, if there is one, is spelled as it
    should be. -/
def Declarator.IsProper (d : Declarator) : Prop :=
  ∀ o, d.value = some o → o.IsProper

/-- The operands of a statement that are to be stored are spelled as they should
    be. -/
def Statement.IsProper : Statement → Prop
  | declaration d => ∀ item ∈ d.items, item.IsProper
  | assignment a => a.value.IsProper
  | call _ => True

theorem Statement.isProper_of_ofText? {text : String} {st : Statement}
    (h : Statement.ofText? text = some st) : st.IsProper := by
  obtain ⟨ts, hscan, hts⟩ := Option.bind_eq_some_iff.1 h
  obtain ⟨rfl, -⟩ := ofTokens?_eq_some_iff.1 hts
  have hproper : ∀ o : Operand, o.token ∈ st.tokens → o.IsProper :=
    fun o ho => Token.isProper_of_scan hscan o.token ho
  cases st with
  | declaration d =>
    intro item hitem o ho
    refine hproper o ?_
    have hmem : o.token ∈ item.tokens := by simp [Declarator.tokens, ho]
    have hjoin := mem_commaJoin (List.mem_map_of_mem hitem) hmem
    simp [tokens, Declaration.tokens, hjoin]
  | assignment a => exact hproper a.value (by simp [tokens, Assignment.tokens])
  | call c => trivial

end LineCheck
