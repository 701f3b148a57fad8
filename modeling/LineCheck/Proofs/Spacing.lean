import LineCheck.Proofs.Padding

/-!
Gaps between tokens.

A text that can be scanned is the texts of its tokens with gaps around them
(`Token.exists_eq_spread`), and the gaps may be changed as long as neighbouring
tokens stay apart: the same tokens are read (`Token.scan_spread`). The end of a
string is looked for in all that follows it, but only by the next character that
is not blank behind each quote. So it depends on the solid part of what follows
(`Token.isSome_cutAtQuote_eq`), of which a change of gaps changes nothing.
-/

namespace LineCheck

namespace Token

/-! ## Solid parts -/

/-- A text without its blanks. -/
def solid (text : List Char) : List Char :=
  text.filter fun c => !Text.isBlank c

theorem solid_append (text rest : List Char) : solid (text ++ rest) = solid text ++ solid rest :=
  List.filter_append text rest

theorem solid_of_forall_isGap {gap : List Char} (h : ∀ c ∈ gap, isGap c = true) :
    solid gap = [] := by
  refine List.filter_eq_nil_iff.2 fun c hc => ?_
  simp [Text.isBlank_of_isGap (h c hc)]

/-- The first character that is not blank decides whether an operand can end. -/
theorem followsOperand_eq (text : List Char) :
    followsOperand text = (solid text).head?.all fun c => c == ',' || c == ';' || c == ')' := by
  induction text with
  | nil => rfl
  | cons c text ih =>
    by_cases hc : Text.isBlank c = true
    · have htrim : Text.trimStart (c :: text) = Text.trimStart text := List.dropWhile_cons_of_pos hc
      have hsolid : solid (c :: text) = solid text := List.filter_cons_of_neg (by simp [hc])
      rw [followsOperand, htrim, ← followsOperand, ih, hsolid]
    · have htrim : Text.trimStart (c :: text) = c :: text := List.dropWhile_cons_of_neg hc
      have hsolid : solid (c :: text) = c :: solid text := List.filter_cons_of_pos (by simp [hc])
      rw [followsOperand, htrim, hsolid]
      rfl

/-- Whether some quote can end a string is seen in the solid part of a text. -/
theorem isSome_cutAtQuote_eq (text : List Char) :
    (cutAtQuote followsOperand text).isSome = (cutAtQuote followsOperand (solid text)).isSome := by
  induction text with
  | nil => rfl
  | cons c text ih =>
    by_cases hc : Text.isBlank c = true
    · have hquote : c ≠ quote := by
        rintro rfl
        exact absurd hc (by decide)
      have hsolid : solid (c :: text) = solid text := List.filter_cons_of_neg (by simp [hc])
      rw [cutAtQuote, if_neg (by simp [hquote]), Option.isSome_map, ih, hsolid]
    · have hsolid : solid (c :: text) = c :: solid text := List.filter_cons_of_pos (by simp [hc])
      have hfollows : followsOperand (solid text) = followsOperand text := by
        rw [followsOperand_eq, followsOperand_eq, solid, solid, List.filter_filter]
        simp
      rw [hsolid, cutAtQuote, cutAtQuote, hfollows]
      split
      · rfl
      · rw [Option.isSome_map, Option.isSome_map, ih]

/-! ## Tokens before another text -/

theorem cutAtQuote_true_append {body : List Char} (h : quote ∉ body) (rest : List Char) :
    cutAtQuote (fun _ => true) (body ++ quote :: rest) = some (body, rest) := by
  induction body with
  | nil => rfl
  | cons c body ih =>
    rw [List.mem_cons, not_or] at h
    rw [List.cons_append, cutAtQuote, if_neg (by simp [Ne.symm h.1]), ih h.2]
    rfl

/-- A string that ends at the first quote, for want of one that can end it, ends
    there before every text with the same solid part. -/
theorem string?_of_solid_eq {body rest rest' : List Char} {t : Token}
    (h : string? (body ++ quote :: rest) = some (t, rest)) (hsolid : solid rest' = solid rest)
    (hfollows : followsOperand rest = false) :
    string? (body ++ quote :: rest') = some (t, rest') := by
  obtain ⟨⟨body', rest''⟩, hcut, heq⟩ := Option.map_eq_some_iff.1 h
  cases heq
  have hnone : cutAtQuote followsOperand (body ++ quote :: rest) = none := by
    cases hfirst : cutAtQuote followsOperand (body ++ quote :: rest) with
    | none => rfl
    | some pair =>
      obtain rfl : pair = (body', rest) := by simpa [hfirst] using hcut
      -- a quote that ends the string would be followed by what follows an
      -- operand
      have htext := eq_of_cutAtQuote hfirst
      rw [htext] at hfirst
      rw [(cutAtQuote_append_quote_iff.1 hfirst).2] at hfollows
      cases hfollows
  replace hcut : cutAtQuote (fun _ => true) (body ++ quote :: rest) = some (body', rest) := by
    simpa [hnone] using hcut
  obtain rfl : body' = body := (List.append_cancel_right (eq_of_cutAtQuote hcut)).symm
  have hbody : quote ∉ body' := quote_not_mem_of_cutAtQuote hcut
  have hnone' : cutAtQuote followsOperand (body' ++ quote :: rest') = none := by
    rw [← Option.isNone_iff_eq_none, ← Option.not_isSome, isSome_cutAtQuote_eq,
      solid_append] at hnone ⊢
    have hcons : solid (quote :: rest') = solid (quote :: rest) := by
      rw [← List.singleton_append, solid_append, hsolid, ← solid_append, List.singleton_append]
    rwa [hcons]
  rw [string?, hnone', cutAtQuote_true_append hbody]
  rfl

theorem exists_eq_of_isString {t : Token} (h : t.isString = true) :
    ∃ value, t = literal (.str value) := by
  cases t with
  | keyword | type | symbol | ident => cases h
  | literal l =>
    cases l with
    | str value => exact ⟨value, rfl⟩
    | int | double | char | bool => cases h

/-- **A token that is read before some text is read before every text with the
    same solid part**, if a gap or nothing follows it there. -/
theorem next?_of_solid_eq {t : Token} {rest rest' : List Char}
    (h : next? (t.text.toList ++ rest) = some (t, rest)) (hsolid : solid rest' = solid rest)
    (hrest' : StartsApart rest') : next? (t.text.toList ++ rest') = some (t, rest') := by
  have ht : t.WellFormed := wellFormed_of_next? h
  have hfollows : followsOperand rest' = followsOperand rest := by
    rw [followsOperand_eq, followsOperand_eq, hsolid]
  cases hrest : followsOperand rest with
  | true => exact next?_text_append ht hrest'.endsWord fun _ => hfollows.trans hrest
  | false =>
    cases hstring : t.isString with
    | false =>
      refine next?_text_append ht hrest'.endsWord fun hs => ?_
      rw [hstring] at hs
      cases hs
    | true =>
      obtain ⟨value, rfl⟩ := exists_eq_of_isString hstring
      obtain ⟨body, hvalue, -⟩ := ht
      have htext : ∀ text, (literal (.str value)).text.toList ++ text =
          quote :: (body ++ quote :: text) := by
        intro text
        rw [Token.text, Literal.text, hvalue]
        simp [quote]
      rw [htext] at h ⊢
      exact string?_of_solid_eq h hsolid hrest

/-! ## Spread tokens -/

/-- The texts of tokens with the runs `gap 0`, `gap 1` and so on before, between
    and after them. -/
def spread (gap : Nat → List Char) : List Token → List Char
  | [] => gap 0
  | t :: ts => gap 0 ++ t.text.toList ++ spread (fun i => gap (i + 1)) ts

/-- **Scanning loses nothing but gaps.** -/
theorem exists_eq_spread {ts : List Token} {text : List Char} (h : scan text = some ts) :
    ∃ gap, (∀ i, ∀ c ∈ gap i, isGap c = true) ∧ text = spread gap ts := by
  induction ts generalizing text with
  | nil => exact ⟨fun _ => text, fun _ => scan_eq_nil_iff.1 h, rfl⟩
  | cons t ts ih =>
    obtain ⟨first, rest, rfl, hfirst, -, -, hrest⟩ := exists_eq_append_of_scan_cons h
    obtain ⟨gap, hgap, rfl⟩ := ih hrest
    refine ⟨fun i => i.casesOn first gap, fun i => ?_, rfl⟩
    cases i with
    | zero => exact hfirst
    | succ i => exact hgap i

/-- The gaps are no part of the solid text. -/
theorem solid_spread {gap : Nat → List Char} (hgap : ∀ i, ∀ c ∈ gap i, isGap c = true)
    (ts : List Token) : solid (spread gap ts) = ts.flatMap fun t => solid t.text.toList := by
  induction ts generalizing gap with
  | nil => exact solid_of_forall_isGap (hgap 0)
  | cons t ts ih =>
    rw [spread, solid_append, solid_append, solid_of_forall_isGap (hgap 0),
      ih fun i => hgap (i + 1)]
    rfl

theorem startsApart_spread {gap : Nat → List Char} (hgap : ∀ i, ∀ c ∈ gap i, isGap c = true)
    {ts : List Token} (hapart : ts ≠ [] → gap 0 ≠ []) : StartsApart (spread gap ts) := by
  cases ts with
  | nil => exact startsApart_gap (hgap 0)
  | cons t ts =>
    obtain ⟨c, first, hfirst⟩ := List.exists_cons_of_ne_nil (hapart (List.cons_ne_nil t ts))
    rw [spread, hfirst]
    exact startsApart_cons (hgap 0 c (by simp [hfirst])) _

/-- **The same tokens are read with other gaps**, if none between two tokens is
    empty. -/
theorem scan_spread {ts : List Token} {text : List Char} (h : scan text = some ts)
    {gap : Nat → List Char} (hgap : ∀ i, ∀ c ∈ gap i, isGap c = true)
    (hapart : ∀ i, 0 < i → i < ts.length → gap i ≠ []) : scan (spread gap ts) = some ts := by
  induction ts generalizing text gap with
  | nil => exact scan_eq_nil_iff.2 (hgap 0)
  | cons t ts ih =>
    obtain ⟨first, rest, rfl, -, hnext, -, hrest⟩ := exists_eq_append_of_scan_cons h
    obtain ⟨gap', hgap', rfl⟩ := exists_eq_spread hrest
    have hlater : ∀ i, ∀ c ∈ gap (i + 1), isGap c = true := fun i => hgap (i + 1)
    have hsolid : solid (spread (fun i => gap (i + 1)) ts) = solid (spread gap' ts) := by
      rw [solid_spread hlater, solid_spread hgap']
    have hstarts : StartsApart (spread (fun i => gap (i + 1)) ts) := by
      refine startsApart_spread hlater fun hne => hapart 1 Nat.one_pos ?_
      have hpos : 0 < ts.length := List.length_pos_iff.2 hne
      rw [List.length_cons]
      omega
    have htail : scan (spread (fun i => gap (i + 1)) ts) = some ts := by
      refine ih hrest hlater fun i hi hlt => hapart (i + 1) (Nat.succ_pos i) ?_
      rw [List.length_cons]
      omega
    rw [spread, List.append_assoc, scan_gap_append (hgap 0),
      scan_of_next? (next?_of_solid_eq hnext hsolid hstarts), htail, Option.map_some]

end Token

/-- **Scanning loses nothing, and gaps do not matter.** A text is the texts of
    its tokens in order, with gaps before, between and after them; with any
    other gaps, not empty between neighbours, the text has the same tokens. -/
theorem tokenize_spread {text : String} {ts : List Token} (h : tokenize text = some ts) :
    (∃ gap, (∀ i, ∀ c ∈ gap i, Token.isGap c = true) ∧ text.toList = Token.spread gap ts) ∧
    ∀ gap : Nat → List Char, (∀ i, ∀ c ∈ gap i, Token.isGap c = true) →
      (∀ i, 0 < i → i < ts.length → gap i ≠ []) →
        tokenize (String.ofList (Token.spread gap ts)) = some ts := by
  refine ⟨Token.exists_eq_spread h, fun gap hgap hapart => ?_⟩
  rw [tokenize, String.toList_ofList]
  exact Token.scan_spread h hgap hapart

/-- The first string ends at its first quote, as no quote behind it, not even
    the one between apostrophes, stands where an operand can end. -/
theorem tokenize_spread_quotes :
    tokenize "\"a\"'\"'b" =
      some [.literal (.str "\"a\""), .literal (.char "'\"'"), .ident "b"] ∧
    tokenize "\t \"a\"\t '\"'\t b\t " =
      some [.literal (.str "\"a\""), .literal (.char "'\"'"), .ident "b"] := by
  have h : tokenize "\"a\"'\"'b" =
      some [.literal (.str "\"a\""), .literal (.char "'\"'"), .ident "b"] := by decide +kernel
  refine ⟨h, (tokenize_spread h).2 (fun _ => ['\t', ' ']) (fun _ => ?_)
    fun _ _ _ => List.cons_ne_nil _ _⟩
  simp [Token.isGap]

end LineCheck
