import LineCheck.Proofs.Cutting
import LineCheck.Proofs.Spelling
import Mathlib.Data.List.Chain

/-!
Printing statements and method headers, and reading them back.

The tokens of a statement are printed with a blank between each two. A
well-formed token is read back from its text, if nothing follows that it could
go on with (`Token.next?_text_append`); only a string needs more, as it ends
where an operand can end. In a statement or a header every string does
(`Statement.isChain_tokens`, `MethodHeader.isChain_tokens`), so the texts that
can be read are those of well-formed statements, and each is read back from its
print (`ofText?_print_iff_wellFormed`).
-/

namespace LineCheck

namespace Token

/-! ## What follows a token -/

/-- Nothing follows, or a gap does. -/
def StartsApart (rest : List Char) : Prop :=
  ∀ c ∈ rest.head?, isGap c = true

theorem startsApart_nil : StartsApart [] := by
  intro c hc
  cases hc

theorem startsApart_cons {c : Char} (h : isGap c = true) (rest : List Char) :
    StartsApart (c :: rest) := by
  rintro d ⟨⟩
  exact h

theorem isWordPart_of_isGap {c : Char} (h : isGap c = true) : isWordPart c = false := by
  simp only [isGap, Bool.or_eq_true, beq_iff_eq] at h
  rcases h with ((rfl | rfl) | rfl) | rfl <;> decide

theorem isDigit_of_isGap {c : Char} (h : isGap c = true) : c.isDigit = false := by
  simp only [isGap, Bool.or_eq_true, beq_iff_eq] at h
  rcases h with ((rfl | rfl) | rfl) | rfl <;> decide

/-- Nothing follows that a word or a number could go on with. -/
def EndsWord (rest : List Char) : Prop :=
  ∀ c ∈ rest.head?, isWordPart c = false ∧ c ≠ '.'

theorem StartsApart.endsWord {rest : List Char} (h : StartsApart rest) : EndsWord rest := by
  intro c hc
  refine ⟨isWordPart_of_isGap (h c hc), ?_⟩
  rintro rfl
  exact absurd (h '.' hc) (by decide)

theorem isDigit_of_not_isWordPart {c : Char} (h : isWordPart c = false) : c.isDigit = false := by
  simp only [isWordPart, Char.isAlphanum, Bool.or_eq_false_iff] at h
  exact h.1.2

/-- Characters of a class are all taken, up to one that is not in the class. -/
theorem span_append {p : Char → Bool} {text rest : List Char} (htext : ∀ c ∈ text, p c = true)
    (hrest : ∀ c ∈ rest.head?, p c = false) :
    (text ++ rest).takeWhile p = text ∧ (text ++ rest).dropWhile p = rest := by
  rw [List.takeWhile_append_of_pos htext, List.dropWhile_append_of_pos htext]
  cases rest with
  | nil => simp
  | cons c rest => simp [hrest c rfl]

/-! ## Words -/

theorem next?_word {word rest : List Char} (hword : IsWord word)
    (hrest : ∀ c ∈ rest.head?, isWordPart c = false) :
    next? (word ++ rest) = some (ofWord (String.ofList word), rest) := by
  obtain ⟨c, text, rfl, hc, htext⟩ := hword
  have hstart : isWordStart c = true := by
    rcases hc with hc | ⟨rfl, -⟩
    · simp [isWordStart, hc]
    · decide
  have hpart : ∀ d ∈ text, isWordPart d = true := by
    intro d hd
    simpa [isWordPart] using htext d hd
  have hlone : ¬(c = '_' ∧ text = []) := by
    rintro ⟨rfl, htext⟩
    rcases hc with hc | ⟨-, hne⟩
    · exact absurd hc (by decide)
    · exact hne htext
  obtain ⟨htake, hdrop⟩ := span_append hpart hrest
  rw [List.cons_append, next?, if_pos hstart, word?, htake, hdrop, if_neg hlone]

theorem ofWord_text {t : Token} (h : t ∈ reserved) : ofWord t.text = t := by
  revert t
  decide

theorem ofWord_of_isName {name : String} (h : IsName name) : ofWord name = ident name := by
  have hfind : reserved.find? (·.text == name) = none := by simpa using h.2
  rw [ofWord, hfind]
  rfl

/-- Reserved words are words. -/
theorem isWord_text {t : Token} (h : t ∈ reserved) : IsWord t.text.toList := by
  have hletters : ∀ t ∈ reserved, t.text.toList ≠ [] ∧ t.text.toList.all Char.isAlpha = true := by
    decide
  obtain ⟨hne, hall⟩ := hletters t h
  obtain ⟨c, rest, htext⟩ := List.exists_cons_of_ne_nil hne
  rw [htext, List.all_cons, Bool.and_eq_true] at hall
  refine ⟨c, rest, htext, .inl hall.1, fun d hd => .inl ?_⟩
  simp [Char.isAlphanum, List.all_eq_true.1 hall.2 d hd]

/-! ## Numbers -/

/-- Letters by their code points. -/
theorem isAlpha_iff_toNat {c : Char} :
    c.isAlpha = true ↔ 65 ≤ c.toNat ∧ c.toNat ≤ 90 ∨ 97 ≤ c.toNat ∧ c.toNat ≤ 122 := by
  have halpha : c.isAlpha = (decide (65 ≤ c.toNat ∧ c.toNat ≤ 90) ||
      (decide (97 ≤ c.toNat) && decide (c.toNat ≤ 122))) := rfl
  rw [halpha, Bool.or_eq_true, decide_eq_true_eq, Bool.and_eq_true, decide_eq_true_eq,
    decide_eq_true_eq]

/-- A digit begins no word. -/
theorem isWordStart_of_isDigit {d : Char} (h : d.isDigit = true) : isWordStart d = false := by
  have hunderscore : d ≠ '_' := by
    rintro rfl
    exact absurd h (by decide)
  have hdigit : 48 ≤ d.toNat ∧ d.toNat ≤ 57 := Char.isDigit_iff_toNat.1 h
  have hletter : d.isAlpha = false := by
    refine Bool.eq_false_iff.2 fun hd => ?_
    have hletters := isAlpha_iff_toNat.1 hd
    omega
  simp [isWordStart, hletter, hunderscore]

/-- The first character tells whether a number has a sign. -/
theorem exists_next?_eq_number? {whole : List Char} (h : IsInteger whole) :
    ∃ sign digits, whole = sign ++ digits ∧ IsDigits digits ∧
      ∀ rest, next? (whole ++ rest) = number? sign (digits ++ rest) := by
  rcases h with hdigits | ⟨digits, rfl, hdigits⟩
  · refine ⟨[], whole, rfl, hdigits, fun rest => ?_⟩
    obtain ⟨d, digits, rfl⟩ := List.exists_cons_of_ne_nil hdigits.1
    have hd : d.isDigit = true := hdigits.2 d (by simp)
    rw [List.cons_append, next?, isWordStart_of_isDigit hd, if_neg Bool.false_ne_true, if_pos hd]
  · exact ⟨['-'], digits, rfl, hdigits, fun rest => rfl⟩

theorem fraction?_of_endsWord {rest : List Char} (h : EndsWord rest) : fraction? rest = none := by
  cases rest with
  | nil => rfl
  | cons c rest =>
    have hc : c ≠ '.' := (h c rfl).2
    unfold fraction?
    split
    · rename_i heq
      cases heq
      exact absurd rfl hc
    · rfl

theorem number?_int (sign : List Char) {digits rest : List Char} (hdigits : IsDigits digits)
    (hrest : EndsWord rest) :
    number? sign (digits ++ rest) =
      some (literal (.int (String.ofList (sign ++ digits))), rest) := by
  obtain ⟨hne, hall⟩ := hdigits
  obtain ⟨d, digits, rfl⟩ := List.exists_cons_of_ne_nil hne
  rw [List.forall_mem_cons] at hall
  obtain ⟨htake, hdrop⟩ := span_append hall.2 fun c hc => isDigit_of_not_isWordPart (hrest c hc).1
  rw [List.cons_append, number?, if_pos hall.1, htake, hdrop, fraction?_of_endsWord hrest]

theorem number?_double (sign : List Char) {digits fraction rest : List Char}
    (hdigits : IsDigits digits) (hfraction : IsDigits fraction) (hrest : EndsWord rest) :
    number? sign (digits ++ '.' :: fraction ++ rest) =
      some (literal (.double (String.ofList (sign ++ digits ++ '.' :: fraction))), rest) := by
  obtain ⟨hne, hall⟩ := hdigits
  obtain ⟨d, digits, rfl⟩ := List.exists_cons_of_ne_nil hne
  obtain ⟨hfne, hfall⟩ := hfraction
  obtain ⟨f, fraction, rfl⟩ := List.exists_cons_of_ne_nil hfne
  rw [List.forall_mem_cons] at hall hfall
  have hpoint : ∀ c ∈ ('.' :: f :: fraction ++ rest).head?, c.isDigit = false := by
    rintro c ⟨⟩
    decide
  obtain ⟨htake, hdrop⟩ := span_append hall.2 hpoint
  obtain ⟨hftake, hfdrop⟩ :=
    span_append hfall.2 fun c hc => isDigit_of_not_isWordPart (hrest c hc).1
  rw [List.append_assoc, List.cons_append, number?, if_pos hall.1, htake, hdrop]
  simp only [List.cons_append, fraction?, if_pos hfall.1, hftake, hfdrop]

/-! ## Quoted literals -/

theorem next?_char {c : Char} (hc : c ≠ '\n') (rest : List Char) :
    next? ('\x27' :: c :: '\x27' :: rest) =
      some (literal (.char (String.ofList ['\x27', c, '\x27'])), rest) := by
  have hnext : next? ('\x27' :: c :: '\x27' :: rest) = char? (c :: '\x27' :: rest) := rfl
  rw [hnext, char?, if_pos ⟨hc, rfl⟩]
  rfl

theorem next?_string {body rest : List Char} (hbody : closesEarly body = false)
    (hrest : followsOperand rest = true) :
    next? ('\x22' :: body ++ '\x22' :: rest) =
      some (literal (.str (String.ofList ('\x22' :: body ++ ['\x22']))), rest) := by
  have hcut : cutAtQuote followsOperand (body ++ '\x22' :: rest) = some (body, rest) :=
    cutAtQuote_append_quote_iff.2 ⟨hbody, hrest⟩
  have hnext : next? ('\x22' :: body ++ '\x22' :: rest) = string? (body ++ '\x22' :: rest) := rfl
  rw [hnext, string?, hcut]
  rfl

/-! ## Tokens -/

/-- Whether a token is a string. -/
def isString : Token → Bool
  | literal (.str _) => true
  | _ => false

theorem next?_symbol (s : Symbol) (rest : List Char) :
    next? (s.text.toList ++ rest) = some (symbol s, rest) := by
  cases s <;> rfl

/-- **A well-formed token is read back from its text**, if nothing follows that
    it could go on with. A string needs to stand where an operand can end. -/
theorem next?_text_append {t : Token} (ht : t.WellFormed) {rest : List Char} (hrest : EndsWord rest)
    (hstring : t.isString = true → followsOperand rest = true) :
    next? (t.text.toList ++ rest) = some (t, rest) := by
  have hpart : ∀ c ∈ rest.head?, isWordPart c = false := fun c hc => (hrest c hc).1
  have hreserved : t ∈ reserved → next? (t.text.toList ++ rest) = some (t, rest) := by
    intro hmem
    rw [next?_word (isWord_text hmem) hpart, String.ofList_toList, ofWord_text hmem]
  cases t with
  | keyword k => exact hreserved (by cases k <;> decide)
  | type ty => exact hreserved (by cases ty <;> decide)
  | symbol s => exact next?_symbol s rest
  | ident name =>
    rw [text, next?_word ht.1 hpart, String.ofList_toList, ofWord_of_isName ht]
  | literal l =>
    cases l with
    | bool value => exact hreserved (by cases value <;> decide)
    | int value =>
      obtain ⟨sign, digits, hvalue, hdigits, hnext⟩ := exists_next?_eq_number? ht
      rw [text, Literal.text, hnext, number?_int sign hdigits hrest, ← hvalue, String.ofList_toList]
    | double value =>
      obtain ⟨whole, fraction, hvalue, hwhole, hfraction⟩ := ht
      obtain ⟨sign, digits, rfl, hdigits, hnext⟩ := exists_next?_eq_number? hwhole
      rw [text, Literal.text, hvalue, List.append_assoc, hnext, ← List.append_assoc,
        number?_double sign hdigits hfraction hrest, ← hvalue, String.ofList_toList]
    | char value =>
      obtain ⟨c, hc, hvalue⟩ := ht
      have hnext := next?_char hc rest
      rw [← hvalue, String.ofList_toList] at hnext
      rw [text, Literal.text, hvalue]
      exact hnext
    | str value =>
      obtain ⟨body, hvalue, hbody⟩ := ht
      have hnext := next?_string hbody (hstring rfl)
      rw [← hvalue, String.ofList_toList] at hnext
      rw [text, Literal.text, hvalue, List.append_assoc]
      exact hnext

/-! ## Token lists -/

/-- Tokens as text, with a blank between each two. -/
def print (ts : List Token) : String :=
  " ".intercalate (ts.map text)

/-- Whether an operand ends before a token. -/
def endsOperand (t : Token) : Bool :=
  t == symbol .comma || t == symbol .semicolon || t == symbol .closeParen

/-- Where a token stands before another one: a string stands where an operand ends. -/
def Precedes (t u : Token) : Prop :=
  t.isString = true → u.endsOperand = true

theorem precedes_of_endsOperand {u : Token} (h : u.endsOperand = true) (t : Token) : t.Precedes u :=
  fun _ => h

theorem precedes_of_not_isString {t : Token} (h : t.isString = false) (u : Token) : t.Precedes u :=
  fun hstring => absurd (h.symm.trans hstring) Bool.false_ne_true

/-- Gaps before a text have no tokens. -/
theorem scan_gap_append {gap : List Char} (h : ∀ c ∈ gap, isGap c = true) (text : List Char) :
    scan (gap ++ text) = scan text := by
  have hdrop : (gap ++ text).dropWhile isGap = text.dropWhile isGap :=
    List.dropWhile_append_of_pos h
  cases hnext : next? (text.dropWhile isGap) with
  | some pair =>
    obtain ⟨t, rest⟩ := pair
    rw [scan_of_next?_eq_some hnext, scan_of_next?_eq_some (hdrop ▸ hnext)]
  | none =>
    have hall : gap.all isGap = true := List.all_eq_true.2 h
    rw [scan_of_next?_eq_none hnext, scan_of_next?_eq_none (hdrop ▸ hnext), List.all_append, hall,
      Bool.true_and]

/-- A gap begins no token. -/
theorem next?_of_isGap {c : Char} (h : isGap c = true) (text : List Char) :
    next? (c :: text) = none := by
  simp only [isGap, Bool.or_eq_true, beq_iff_eq] at h
  rcases h with ((rfl | rfl) | rfl) | rfl <;> rfl

theorem scan_of_next? {text : List Char} {t : Token} {rest : List Char}
    (h : next? text = some (t, rest)) : scan text = (scan rest).map (t :: ·) := by
  have hdrop : text.dropWhile isGap = text := by
    cases text with
    | nil => rfl
    | cons c text =>
      refine List.dropWhile_cons_of_neg fun hc => ?_
      rw [next?_of_isGap hc] at h
      cases h
  exact scan_of_next?_eq_some (hdrop.symm ▸ h)

theorem followsOperand_text {t : Token} (h : t.endsOperand = true) (rest : List Char) :
    followsOperand (' ' :: t.text.toList ++ rest) = true := by
  simp only [endsOperand, Bool.or_eq_true, beq_iff_eq] at h
  rcases h with (rfl | rfl) | rfl <;> rfl

theorem scan_nil : scan [] = some [] :=
  scan_of_next?_eq_none rfl

theorem toList_print_singleton (t : Token) : (print [t]).toList = t.text.toList := by
  simp [print]

theorem toList_print_cons_cons (t u : Token) (ts : List Token) :
    (print (t :: u :: ts)).toList = t.text.toList ++ ' ' :: (print (u :: ts)).toList := by
  simp [print, String.intercalate_cons_cons]

theorem exists_toList_print_eq (t : Token) (ts : List Token) :
    ∃ rest, (print (t :: ts)).toList = t.text.toList ++ rest := by
  cases ts with
  | nil => exact ⟨[], by rw [toList_print_singleton, List.append_nil]⟩
  | cons u ts => exact ⟨_, toList_print_cons_cons t u ts⟩

/-- **Printed tokens are scanned back**, if they are well formed and every
    string among them stands where an operand ends. -/
theorem tokenize_print {ts : List Token} (hts : ∀ t ∈ ts, t.WellFormed)
    (hchain : ts.IsChain Precedes) :
    tokenize (print ts) = some ts := by
  unfold tokenize
  induction ts with
  | nil => exact scan_nil
  | cons t ts ih =>
    rw [List.forall_mem_cons] at hts
    cases ts with
    | nil =>
      have hnext := next?_text_append hts.1 startsApart_nil.endsWord fun _ => rfl
      rw [List.append_nil] at hnext
      rw [toList_print_singleton, scan_of_next? hnext, scan_nil, Option.map_some]
    | cons u ts =>
      rw [List.isChain_cons_cons] at hchain
      have hstring : t.isString = true →
          followsOperand (' ' :: (print (u :: ts)).toList) = true := by
        intro ht
        obtain ⟨rest, hrest⟩ := exists_toList_print_eq u ts
        rw [hrest]
        exact followsOperand_text (hchain.1 ht) rest
      have hnext := next?_text_append hts.1 (startsApart_cons (by decide) _).endsWord hstring
      have hgap : scan (' ' :: (print (u :: ts)).toList) = scan (print (u :: ts)).toList :=
        scan_gap_append (List.forall_mem_singleton.2 (by decide)) _
      rw [toList_print_cons_cons, scan_of_next? hnext, hgap, ih hts.2 hchain.2, Option.map_some]

end Token

/-! ## Statements and method headers -/

/-- An operand is a name or a literal that is written as it should be. -/
def Operand.WellFormed : Operand → Prop
  | var name => IsName name
  | literal l => l.WellFormed

/-- A name, and the value it is given, if any. -/
def Declarator.WellFormed (d : Declarator) : Prop :=
  IsName d.name ∧ ∀ o ∈ d.value, o.WellFormed

/-- The names and operands of a statement are written as they should be, and a
    declaration has at least one variable. -/
def Statement.WellFormed : Statement → Prop
  | declaration d => d.items ≠ [] ∧ ∀ item ∈ d.items, item.WellFormed
  | assignment a => IsName a.name ∧ a.value.WellFormed
  | call c => IsName c.name ∧ ∀ arg ∈ c.args, arg.WellFormed

/-- The names and operands of a method header are written as they should be, and
    the name of the method begins with a letter. -/
def MethodHeader.WellFormed (m : MethodHeader) : Prop :=
  IsName m.name ∧ (∃ c rest, m.name.toList = c :: rest ∧ c.isAlpha = true) ∧
    ∀ p ∈ m.params, Declarator.WellFormed ⟨p.name, p.initial⟩

/-! ### Well-formed tokens -/

namespace Token

@[simp]
theorem wellFormed_keyword (k : Keyword) : (keyword k).WellFormed :=
  trivial

@[simp]
theorem wellFormed_type (ty : Ty) : (type ty).WellFormed :=
  trivial

@[simp]
theorem wellFormed_symbol (s : Symbol) : (symbol s).WellFormed :=
  trivial

@[simp]
theorem wellFormed_ident (name : String) : (ident name).WellFormed ↔ IsName name :=
  Iff.rfl

end Token

@[simp]
theorem Operand.wellFormed_token (o : Operand) : o.token.WellFormed ↔ o.WellFormed := by
  cases o <;> rfl

theorem Declarator.forall_mem_tokens (d : Declarator) :
    (∀ t ∈ d.tokens, t.WellFormed) ↔ d.WellFormed := by
  obtain ⟨name, value⟩ := d
  cases value <;> simp [WellFormed, tokens]

theorem forall_mem_finalTokens (isFinal : Bool) : ∀ t ∈ finalTokens isFinal, t.WellFormed := by
  cases isFinal <;> simp [finalTokens]

theorem Parameter.forall_mem_tokens (p : Parameter) :
    (∀ t ∈ p.tokens, t.WellFormed) ↔ Declarator.WellFormed ⟨p.name, p.initial⟩ := by
  rw [← Declarator.forall_mem_tokens, Parameter.tokens, List.forall_mem_append,
    List.forall_mem_cons]
  exact ⟨fun h => h.2.2, fun h => ⟨forall_mem_finalTokens p.isFinal, Token.wellFormed_type p.ty, h⟩⟩

theorem forall_mem_commaJoin {α : Type} {write : α → List Token} {P : α → Prop}
    (h : ∀ a, (∀ t ∈ write a, t.WellFormed) ↔ P a) (as : List α) :
    (∀ t ∈ commaJoin (as.map write), t.WellFormed) ↔ ∀ a ∈ as, P a := by
  constructor
  · intro hall a ha
    exact (h a).1 fun t ht => hall t (mem_commaJoin (List.mem_map_of_mem ha) ht)
  · intro hall t ht
    rcases Cutting.eq_or_exists_of_mem_intercalate ht with rfl | ⟨part, hpart, ht⟩
    · exact Token.wellFormed_symbol .comma
    · obtain ⟨a, ha, rfl⟩ := List.mem_map.1 hpart
      exact (h a).2 (hall a ha) t ht

theorem Statement.wellFormed_iff {st : Statement} :
    st.WellFormed ↔ (∀ t ∈ st.tokens, t.WellFormed) ∧ ∀ d, st = .declaration d → d.items ≠ [] := by
  cases st with
  | declaration d =>
    have hfinal := forall_mem_finalTokens d.isFinal
    have hitems := forall_mem_commaJoin Declarator.forall_mem_tokens d.items
    simp only [tokens, Declaration.tokens, List.forall_mem_append, List.forall_mem_cons, hitems]
    constructor
    · rintro ⟨hne, hall⟩
      refine ⟨⟨⟨hfinal, Token.wellFormed_type d.ty, hall⟩, by simp⟩, ?_⟩
      rintro _ ⟨⟩
      exact hne
    · rintro ⟨⟨⟨-, -, hall⟩, -⟩, hne⟩
      exact ⟨hne d rfl, hall⟩
  | assignment a => simp [WellFormed, tokens, Assignment.tokens]
  | call c =>
    have harg : ∀ arg : Operand, (∀ t ∈ [arg.token], t.WellFormed) ↔ arg.WellFormed := by simp
    have hargs := forall_mem_commaJoin harg c.args
    simp only [tokens, Call.tokens, List.forall_mem_append, List.forall_mem_cons, hargs]
    simp [WellFormed]

theorem MethodHeader.wellFormed_iff {m : MethodHeader} :
    m.WellFormed ↔ (∀ t ∈ m.tokens, t.WellFormed) ∧ isMethodName m.name = true := by
  have hname : isMethodName m.name = true ↔
      ∃ c rest, m.name.toList = c :: rest ∧ c.isAlpha = true := by
    unfold isMethodName
    cases m.name.toList <;> simp
  have hparams := forall_mem_commaJoin Parameter.forall_mem_tokens m.params
  simp only [tokens, List.forall_mem_append, List.forall_mem_cons, hparams, hname]
  simp [WellFormed, and_comm, and_left_comm]

/-! ### Strings end operands -/

namespace Token

theorem isChain_append_cons {ts us : List Token} {u : Token} (hts : ts.IsChain Precedes)
    (hu : u.endsOperand = true) (hus : (u :: us).IsChain Precedes) :
    (ts ++ u :: us).IsChain Precedes := by
  refine List.isChain_append.2 ⟨hts, hus, ?_⟩
  rintro t - _ ⟨⟩
  exact precedes_of_endsOperand hu t

theorem isChain_cons {t : Token} (ht : t.isString = false) {ts : List Token}
    (hts : ts.IsChain Precedes) : (t :: ts).IsChain Precedes := by
  cases ts with
  | nil => exact .singleton t
  | cons u ts => exact List.isChain_cons_cons.2 ⟨precedes_of_not_isString ht u, hts⟩

end Token

/-- Before each comma of a list an operand ends. -/
theorem isChain_commaJoin {α : Type} {write : α → List Token}
    (h : ∀ a, (write a).IsChain Token.Precedes) (as : List α) :
    (commaJoin (as.map write)).IsChain Token.Precedes := by
  induction as with
  | nil => exact .nil
  | cons a as ih =>
    cases as with
    | nil => simpa [commaJoin] using h a
    | cons b as =>
      rw [List.map_cons, List.map_cons, commaJoin_cons_cons]
      exact Token.isChain_append_cons (h a) rfl (Token.isChain_cons rfl ih)

theorem Declarator.isChain_tokens (d : Declarator) : d.tokens.IsChain Token.Precedes := by
  obtain ⟨name, value⟩ := d
  cases value with
  | none => exact .singleton _
  | some o => exact Token.isChain_cons rfl (Token.isChain_cons rfl (.singleton _))

theorem isChain_finalTokens_append (isFinal : Bool) {ts : List Token}
    (h : ts.IsChain Token.Precedes) :
    (finalTokens isFinal ++ ts).IsChain Token.Precedes := by
  cases isFinal with
  | false => exact h
  | true => exact Token.isChain_cons rfl h

theorem Statement.isChain_tokens (st : Statement) : st.tokens.IsChain Token.Precedes := by
  cases st with
  | declaration d =>
    have hitems := isChain_commaJoin Declarator.isChain_tokens d.items
    have hend := Token.isChain_append_cons hitems (by rfl) (.singleton (.symbol .semicolon))
    rw [tokens, Declaration.tokens, List.append_assoc, List.cons_append]
    exact isChain_finalTokens_append d.isFinal (Token.isChain_cons rfl hend)
  | assignment a =>
    exact Token.isChain_cons rfl (Token.isChain_cons rfl
      (Token.isChain_append_cons (.singleton a.value.token) rfl (.singleton _)))
  | call c =>
    have hargs := isChain_commaJoin (fun arg : Operand => .singleton arg.token) c.args
    have hend := Token.isChain_append_cons hargs (by rfl)
      (Token.isChain_cons (t := .symbol .closeParen) rfl (.singleton (.symbol .semicolon)))
    exact Token.isChain_cons rfl (Token.isChain_cons rfl hend)

theorem MethodHeader.isChain_tokens (m : MethodHeader) : m.tokens.IsChain Token.Precedes := by
  have hparam : ∀ p : Parameter, p.tokens.IsChain Token.Precedes := fun p =>
    isChain_finalTokens_append p.isFinal (Token.isChain_cons rfl (Declarator.isChain_tokens _))
  have hparams := isChain_commaJoin hparam m.params
  have hend := Token.isChain_append_cons hparams (by rfl)
    (Token.isChain_cons (t := .symbol .closeParen) rfl (.singleton (.symbol .openBrace)))
  exact Token.isChain_cons rfl (Token.isChain_cons rfl (Token.isChain_cons rfl hend))

/-! ### Round trips -/

theorem Statement.ofText?_eq_some_iff {text : String} {st : Statement} :
    Statement.ofText? text = some st ↔
      tokenize text = some st.tokens ∧ ∀ d, st = .declaration d → d.items ≠ [] := by
  unfold ofText?
  cases tokenize text with
  | none => simp
  | some ts => simp [ofTokens?_eq_some_iff]

theorem MethodHeader.ofText?_eq_some_iff {text : String} {m : MethodHeader} :
    MethodHeader.ofText? text = some m ↔
      tokenize text = some m.tokens ∧ isMethodName m.name = true := by
  unfold ofText?
  cases tokenize text with
  | none => simp
  | some ts => simp [ofTokens?_eq_some_iff]

/-- What is read from a text is well formed. -/
theorem Statement.wellFormed_of_ofText? {text : String} {st : Statement}
    (h : Statement.ofText? text = some st) : st.WellFormed := by
  obtain ⟨hscan, hitems⟩ := ofText?_eq_some_iff.1 h
  exact wellFormed_iff.2 ⟨Token.wellFormed_of_scan hscan, hitems⟩

theorem MethodHeader.wellFormed_of_ofText? {text : String} {m : MethodHeader}
    (h : MethodHeader.ofText? text = some m) : m.WellFormed := by
  obtain ⟨hscan, hname⟩ := ofText?_eq_some_iff.1 h
  exact wellFormed_iff.2 ⟨Token.wellFormed_of_scan hscan, hname⟩

/-- **Printing and reading are inverse.** A statement is read back from its
    print iff it is well formed, and every statement that is read from any text
    is; and so for method headers. -/
theorem ofText?_print_iff_wellFormed :
    (∀ st : Statement, Statement.ofText? (Token.print st.tokens) = some st ↔ st.WellFormed) ∧
    (∀ text st, Statement.ofText? text = some st →
      st.WellFormed ∧ Statement.ofText? (Token.print st.tokens) = some st) ∧
    (∀ m : MethodHeader, MethodHeader.ofText? (Token.print m.tokens) = some m ↔ m.WellFormed) ∧
    ∀ text m, MethodHeader.ofText? text = some m →
      m.WellFormed ∧ MethodHeader.ofText? (Token.print m.tokens) = some m := by
  have hst : ∀ st : Statement, st.WellFormed →
      Statement.ofText? (Token.print st.tokens) = some st := by
    intro st h
    obtain ⟨hts, hitems⟩ := Statement.wellFormed_iff.1 h
    exact Statement.ofText?_eq_some_iff.2 ⟨Token.tokenize_print hts st.isChain_tokens, hitems⟩
  have hm : ∀ m : MethodHeader, m.WellFormed →
      MethodHeader.ofText? (Token.print m.tokens) = some m := by
    intro m h
    obtain ⟨hts, hname⟩ := MethodHeader.wellFormed_iff.1 h
    exact MethodHeader.ofText?_eq_some_iff.2 ⟨Token.tokenize_print hts m.isChain_tokens, hname⟩
  refine ⟨fun st => ⟨Statement.wellFormed_of_ofText?, hst st⟩, ?_,
    fun m => ⟨MethodHeader.wellFormed_of_ofText?, hm m⟩, ?_⟩
  · intro text st h
    have hwf := Statement.wellFormed_of_ofText? h
    exact ⟨hwf, hst st hwf⟩
  · intro text m h
    have hwf := MethodHeader.wellFormed_of_ofText? h
    exact ⟨hwf, hm m hwf⟩

/-- A call with quotes inside a string and as a character, and a header with an
    initial value. -/
theorem print_of_quotes_in_operands :
    (Statement.WellFormed (.call ⟨"f", [.literal (.str "\x22say \x22hi\x22 to, all\x22"),
        .literal (.char "'\x22'"), .literal (.double "-1.50"), .var "_y"]⟩) ∧
      Statement.ofText? "f ( \x22say \x22hi\x22 to, all\x22 , '\x22' , -1.50 , _y ) ;" =
        some (.call ⟨"f", [.literal (.str "\x22say \x22hi\x22 to, all\x22"),
          .literal (.char "'\x22'"), .literal (.double "-1.50"), .var "_y"]⟩)) ∧
    MethodHeader.WellFormed ⟨"g", [⟨true, .string, "s", some (.literal (.str "\x22a\x22b\x22"))⟩]⟩ ∧
      MethodHeader.ofText? "void g ( final String s = \x22a\x22b\x22 ) \x7b" =
        some ⟨"g", [⟨true, .string, "s", some (.literal (.str "\x22a\x22b\x22"))⟩]⟩ := by
  have hst : Statement.ofText? "f(\x22say \x22hi\x22 to, all\x22,'\x22',-1.50,_y);" =
      some (.call ⟨"f", [.literal (.str "\x22say \x22hi\x22 to, all\x22"),
        .literal (.char "'\x22'"), .literal (.double "-1.50"), .var "_y"]⟩) := by decide +kernel
  have hm : MethodHeader.ofText? "void g(final String s=\x22a\x22b\x22)\x7b" =
      some ⟨"g", [⟨true, .string, "s", some (.literal (.str "\x22a\x22b\x22"))⟩]⟩ := by
        decide +kernel
  exact ⟨ofText?_print_iff_wellFormed.2.1 _ _ hst, ofText?_print_iff_wellFormed.2.2.2 _ _ hm⟩

end LineCheck
