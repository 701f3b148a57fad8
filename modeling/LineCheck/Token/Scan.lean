import LineCheck.Text.Blank
import LineCheck.Token

/-!
Scanning: from text to tokens.

Gaps between tokens are skipped. The first character of a token decides its
kind, and the token then takes as many characters as its kind allows, so the
longest match is taken. A text in which some position starts no token has no
tokens at all.

* `next? text` reads the token at the start of a text and gives what is left;
* `scan text` reads a whole text, `tokenize` does so for a `String`;
* `reads_of_next?`: reading a token loses nothing, its source text and the rest
  make up the text. A token is not empty, and this is why scanning ends.
-/

namespace LineCheck.Token

/-! ## Words and numbers -/

/-- The characters that are skipped between tokens. -/
def isGap (c : Char) : Bool :=
  c == ' ' || c == '\t' || c == '\r' || c == '\x0c'

/-- The characters a word may begin with. -/
def isWordStart (c : Char) : Bool :=
  c.isAlpha || c == '_'

/-- The characters a word may go on with. -/
def isWordPart (c : Char) : Bool :=
  c.isAlphanum || c == '_'

/-- The word that begins with `c` and goes on in `text`. An underscore alone is
    no word. -/
def word? (c : Char) (text : List Char) : Option (Token × List Char) :=
  if c = '_' ∧ text.takeWhile isWordPart = [] then none
  else some (ofWord (String.ofList (c :: text.takeWhile isWordPart)), text.dropWhile isWordPart)

/-- The fractional part at the start of a text: a point and at least one digit. -/
def fraction? : List Char → Option (List Char × List Char)
  | '.' :: d :: text =>
    if d.isDigit then some ('.' :: d :: text.takeWhile Char.isDigit, text.dropWhile Char.isDigit)
    else none
  | _ => none

/-- The number written after `sign`: at least one digit, and a fractional part
    if there is one. -/
def number? (sign : List Char) : List Char → Option (Token × List Char)
  | [] => none
  | d :: text =>
    if d.isDigit then
      match fraction? (text.dropWhile Char.isDigit) with
      | some (fraction, rest) =>
        some (literal (.double
          (String.ofList (sign ++ d :: text.takeWhile Char.isDigit ++ fraction))), rest)
      | none =>
        some (literal (.int (String.ofList (sign ++ d :: text.takeWhile Char.isDigit))),
          text.dropWhile Char.isDigit)
    else none

/-! ## Quoted literals -/

/-- The quote around strings. -/
def quote : Char := '\x22'

/-- The quote around characters. -/
def apostrophe : Char := '\x27'

/-- Cuts a text at its first quote after which `closes` holds: the text before
    it and after it. -/
def cutAtQuote (closes : List Char → Bool) : List Char → Option (List Char × List Char)
  | [] => none
  | c :: text =>
    if c = quote && closes text then some ([], text)
    else (cutAtQuote closes text).map fun (body, rest) => (c :: body, rest)

/-- Whether a text can follow an operand: blanks apart, nothing follows, or a
    comma, a semicolon or a closing parenthesis. -/
def followsOperand (text : List Char) : Bool :=
  match Text.trimStart text with
  | [] => true
  | c :: _ => c == ',' || c == ';' || c == ')'

/-- The string whose opening quote stands before `text`. It ends at the first
    quote that something able to follow an operand comes after, so that quotes
    may stand inside; if there is no such quote, at the first one. -/
def string? (text : List Char) : Option (Token × List Char) :=
  (cutAtQuote followsOperand text <|> cutAtQuote (fun _ => true) text).map fun (body, rest) =>
    (literal (.str (String.ofList (quote :: body ++ [quote]))), rest)

/-- The character literal whose opening apostrophe stands before `text`: any one
    character but a newline, between apostrophes. -/
def char? : List Char → Option (Token × List Char)
  | c :: close :: rest =>
    if c ≠ '\n' ∧ close = apostrophe then
      some (literal (.char (String.ofList [apostrophe, c, apostrophe])), rest)
    else none
  | _ => none

/-! ## Tokens -/

/-- The symbol at the start of a text. -/
def symbol? (text : List Char) : Option (Token × List Char) :=
  Symbol.all.findSome? fun s => (s.text.toList.isPrefixOf? text).map fun rest => (symbol s, rest)

/-- The token at the start of a text, and what follows it. -/
def next? : List Char → Option (Token × List Char)
  | [] => none
  | c :: text =>
    if isWordStart c then word? c text
    else if c.isDigit then number? [] (c :: text)
    else if c = '-' then number? ['-'] text
    else if c = quote then string? text
    else if c = apostrophe then char? text
    else symbol? (c :: text)

/-! ## Nothing is lost -/

/-- `Reads text t rest`: the token `t` is written at the start of `text`, and
    `rest` follows it. -/
def Reads (text : List Char) (t : Token) (rest : List Char) : Prop :=
  t.text.toList ≠ [] ∧ text = t.text.toList ++ rest

theorem Reads.length_lt {text : List Char} {t : Token} {rest : List Char}
    (h : Reads text t rest) : rest.length < text.length := by
  have := List.length_pos_iff.2 h.1
  rw [h.2, List.length_append]
  omega

theorem reads_of_word? {c : Char} {text : List Char} {t : Token} {rest : List Char}
    (h : word? c text = some (t, rest)) : Reads (c :: text) t rest := by
  unfold word? at h
  split at h
  · cases h
  · cases h
    simp [Reads, text_ofWord]

theorem eq_of_fraction? {text fraction rest : List Char}
    (h : fraction? text = some (fraction, rest)) : text = fraction ++ rest := by
  unfold fraction? at h
  split at h
  · split at h
    · cases h
      simp
    · cases h
  · cases h

theorem reads_of_number? {sign text : List Char} {t : Token} {rest : List Char}
    (h : number? sign text = some (t, rest)) : Reads (sign ++ text) t rest := by
  unfold number? at h
  split at h
  · cases h
  · rename_i d text
    split at h
    · split at h
      · rename_i fraction r hf
        cases h
        refine ⟨by simp [Token.text, Literal.text], ?_⟩
        simp [Token.text, Literal.text, ← eq_of_fraction? hf]
      · cases h
        simp [Reads, Token.text, Literal.text]
    · cases h

theorem eq_of_cutAtQuote {closes : List Char → Bool} {text body rest : List Char}
    (h : cutAtQuote closes text = some (body, rest)) : text = body ++ quote :: rest := by
  fun_induction cutAtQuote closes text generalizing body with
  | case1 => cases h
  | case2 c text hc =>
    cases h
    simp_all
  | case3 c text hc ih =>
    obtain ⟨⟨b, r⟩, hb, heq⟩ := Option.map_eq_some_iff.1 h
    cases heq
    rw [List.cons_append, ← ih hb]

theorem reads_of_string? {text : List Char} {t : Token} {rest : List Char}
    (h : string? text = some (t, rest)) : Reads (quote :: text) t rest := by
  unfold string? at h
  obtain ⟨⟨body, r⟩, hb, heq⟩ := Option.map_eq_some_iff.1 h
  cases heq
  have : text = body ++ quote :: rest := by
    cases hc : cutAtQuote followsOperand text with
    | none => exact eq_of_cutAtQuote (by simpa [hc] using hb)
    | some p => exact eq_of_cutAtQuote (hc.trans (by simpa [hc] using hb))
  exact ⟨by simp [Token.text, Literal.text], by simp [Token.text, Literal.text, this]⟩

theorem reads_of_char? {text : List Char} {t : Token} {rest : List Char}
    (h : char? text = some (t, rest)) : Reads (apostrophe :: text) t rest := by
  unfold char? at h
  split at h
  · split at h
    · cases h
      exact ⟨by simp [Token.text, Literal.text], by simp_all [Token.text, Literal.text]⟩
    · cases h
  · cases h

theorem eq_append_of_isPrefixOf? {start text rest : List Char}
    (h : start.isPrefixOf? text = some rest) : text = start ++ rest := by
  induction start generalizing text with
  | nil => exact Option.some.inj h
  | cons c start ih =>
    cases text with
    | nil => cases h
    | cons d text =>
      have hrest : (if c == d then start.isPrefixOf? text else none) = some rest := h
      by_cases hcd : (c == d) = true
      · rw [if_pos hcd] at hrest
        rw [ih hrest, eq_of_beq hcd, List.cons_append]
      · rw [if_neg hcd] at hrest
        cases hrest

theorem reads_of_symbol? {text : List Char} {t : Token} {rest : List Char}
    (h : symbol? text = some (t, rest)) : Reads text t rest := by
  obtain ⟨s, -, hs⟩ := List.exists_of_findSome?_eq_some h
  obtain ⟨r, hr, heq⟩ := Option.map_eq_some_iff.1 hs
  cases heq
  exact ⟨by cases s <;> decide, eq_append_of_isPrefixOf? hr⟩

/-- **Reading a token loses nothing.** -/
theorem reads_of_next? {text : List Char} {t : Token} {rest : List Char}
    (h : next? text = some (t, rest)) : Reads text t rest := by
  revert h
  fun_cases next? text with
  | case1 => exact nofun
  | case2 => exact reads_of_word?
  | case3 => exact reads_of_number?
  | case4 => exact reads_of_number?
  | case5 => exact reads_of_string?
  | case6 => exact reads_of_char?
  | case7 => exact reads_of_symbol?

/-! ## Whole texts -/

theorem length_lt_of_next?_dropWhile {text : List Char} {t : Token} {rest : List Char}
    (h : next? (text.dropWhile isGap) = some (t, rest)) : rest.length < text.length :=
  Nat.lt_of_lt_of_le (reads_of_next? h).length_lt (List.dropWhile_suffix isGap).length_le

/-- The tokens of a text, or nothing if some position starts no token. -/
def scan (text : List Char) : Option (List Token) :=
  match _ : next? (text.dropWhile isGap) with
  | some (t, rest) => (scan rest).map (t :: ·)
  | none => if text.all isGap then some [] else none
termination_by text.length
decreasing_by exact length_lt_of_next?_dropWhile ‹_›

theorem scan_of_next?_eq_some {text : List Char} {t : Token} {rest : List Char}
    (h : next? (text.dropWhile isGap) = some (t, rest)) : scan text = (scan rest).map (t :: ·) := by
  rw [scan]
  split <;> simp_all

theorem scan_of_next?_eq_none {text : List Char} (h : next? (text.dropWhile isGap) = none) :
    scan text = if text.all isGap then some [] else none := by
  rw [scan]
  split <;> simp_all

theorem scan_eq_nil_iff {text : List Char} : scan text = some [] ↔ ∀ c ∈ text, isGap c = true := by
  cases hnext : next? (text.dropWhile isGap) with
  | none => simp [scan_of_next?_eq_none hnext]
  | some pair =>
    rw [scan_of_next?_eq_some hnext]
    refine ⟨by simp, fun hgap => ?_⟩
    rw [← List.append_nil text, List.dropWhile_append_of_pos hgap] at hnext
    cases hnext

theorem scan_eq_cons_iff {text : List Char} {t : Token} {ts : List Token} :
    scan text = some (t :: ts) ↔
      ∃ rest, next? (text.dropWhile isGap) = some (t, rest) ∧ scan rest = some ts := by
  cases hnext : next? (text.dropWhile isGap) with
  | none => simp [scan_of_next?_eq_none hnext]
  | some pair =>
    rw [scan_of_next?_eq_some hnext, Option.map_eq_some_iff]
    constructor
    · rintro ⟨ts', hrest, heq⟩
      cases heq
      exact ⟨_, rfl, hrest⟩
    · rintro ⟨rest, heq, hrest⟩
      cases heq
      exact ⟨ts, hrest, rfl⟩

end LineCheck.Token

namespace LineCheck

/-- The tokens of a text, or nothing if some position starts no token. -/
def tokenize (text : String) : Option (List Token) :=
  Token.scan text.toList

end LineCheck
