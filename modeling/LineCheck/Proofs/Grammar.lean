import Mathlib.Data.List.Basic
import LineCheck.Statement.Grammar

/-!
The grammars of statements and of method headers are exact: both are read from
their tokens and from nothing else (`Statement.ofTokens?_eq_some_iff`,
`MethodHeader.ofTokens?_eq_some_iff`). A declaration without variables has
tokens that are not read.

The readers are built up as the tokens are: operands and single variables first,
then comma lists of them (`commaList?_eq_some_iff`), then statements and
headers.
-/

namespace LineCheck

/-! ## Comma lists -/

theorem commaJoin_cons_cons (part next : List Token) (parts : List (List Token)) :
    commaJoin (part :: next :: parts) = part ++ .symbol .comma :: commaJoin (next :: parts) := by
  simp [commaJoin, List.intercalate]

theorem mem_commaJoin {parts : List (List Token)} {part : List Token} (hpart : part ∈ parts)
    {t : Token} (ht : t ∈ part) : t ∈ commaJoin parts := by
  induction parts with
  | nil => simp at hpart
  | cons first parts ih =>
    cases parts with
    | nil =>
      obtain rfl : part = first := by simpa using hpart
      simpa [commaJoin, List.intercalate] using ht
    | cons next parts =>
      rw [commaJoin_cons_cons]
      rcases List.mem_cons.1 hpart with rfl | hpart
      · simp [ht]
      · simp [ih hpart]

theorem commaJoin_eq_nil_iff {α : Type} {write : α → List Token} (hwrite : ∀ a, write a ≠ [])
    {as : List α} : commaJoin (as.map write) = [] ↔ as = [] := by
  cases as with
  | nil => simp [commaJoin, List.intercalate]
  | cons a as => cases as <;> simp [commaJoin, List.intercalate, hwrite]

theorem commaListOrEmpty?_eq_some_iff {α : Type} {item? : List Token → Option α}
    {write : α → List Token} (h : ∀ ts a, item? ts = some a ↔ ts = write a)
    (hcomma : ∀ a, .symbol .comma ∉ write a) (hwrite : ∀ a, write a ≠ []) {ts : List Token}
    {as : List α} : commaListOrEmpty? item? ts = some as ↔ ts = commaJoin (as.map write) := by
  unfold commaListOrEmpty?
  by_cases hts : ts = []
  · rw [if_pos hts, hts, eq_comm (a := []), commaJoin_eq_nil_iff hwrite]
    simp [eq_comm]
  · rw [if_neg hts, commaList?_eq_some_iff h hcomma, and_iff_right_iff_imp]
    rintro rfl has
    exact hts ((commaJoin_eq_nil_iff hwrite).2 has)

/-! ## Parts of statements -/

theorem Operand.ofTokens?_eq_some_iff {ts : List Token} {o : Operand} :
    Operand.ofTokens? ts = some o ↔ ts = [o.token] := by
  rcases ts with _ | ⟨t, _ | ⟨t', ts⟩⟩
  · simp [ofTokens?]
  · simp [ofTokens?, ofToken?_eq_some_iff]
  · simp [ofTokens?]

theorem Operand.comma_ne_token (o : Operand) : Token.symbol .comma ≠ o.token := by
  cases o <;> simp [token]

theorem Declarator.ofTokens?_eq_some_iff {ts : List Token} {d : Declarator} :
    Declarator.ofTokens? ts = some d ↔ ts = d.tokens := by
  constructor
  · intro h
    unfold ofTokens? at h
    split at h
    · cases h
      rfl
    · obtain ⟨o, ho, rfl⟩ := Option.map_eq_some_iff.1 h
      rw [Operand.ofToken?_eq_some_iff.1 ho]
      rfl
    · cases h
  · rintro rfl
    obtain ⟨name, _ | value⟩ := d
    · rfl
    · simp [tokens, ofTokens?, Operand.ofToken?_eq_some_iff]

theorem Declarator.comma_not_mem_tokens (d : Declarator) : Token.symbol .comma ∉ d.tokens := by
  obtain ⟨name, _ | value⟩ := d
  · simp [tokens]
  · simp [tokens, value.comma_ne_token]

theorem Declaration.ofTokens?_eq_some_iff {isFinal : Bool} {ts : List Token} {d : Declaration} :
    Declaration.ofTokens? isFinal ts = some d ↔ d.isFinal = isFinal ∧ d.items ≠ [] ∧
      ts = .type d.ty :: commaJoin (d.items.map Declarator.tokens) ++ [.symbol .semicolon] := by
  have hlist : ∀ {list : List Token} {items : List Declarator},
      commaList? Declarator.ofTokens? list = some items ↔
        items ≠ [] ∧ list = commaJoin (items.map Declarator.tokens) :=
    commaList?_eq_some_iff (fun _ _ => Declarator.ofTokens?_eq_some_iff)
      Declarator.comma_not_mem_tokens
  constructor
  · intro h
    unfold ofTokens? at h
    split at h
    · obtain ⟨list, hcut, h⟩ := Option.bind_eq_some_iff.1 h
      obtain ⟨items, hitems, h⟩ := Option.bind_eq_some_iff.1 h
      cases h
      obtain ⟨hne, rfl⟩ := hlist.1 hitems
      exact ⟨rfl, hne, by rw [← List.append_eq_of_isSuffixOf?_eq_some hcut, List.cons_append]⟩
    · cases h
  · rintro ⟨rfl, hne, rfl⟩
    have hitems := hlist.2 ⟨hne, rfl⟩
    simp [ofTokens?, List.isSuffixOf?_eq_some_iff_append_eq.2 rfl, hitems]

theorem Call.argsOfTokens?_eq_some_iff {ts : List Token} {args : List Operand} :
    Call.argsOfTokens? ts = some args ↔ ts =
      commaJoin (args.map fun arg => [arg.token]) ++ [.symbol .closeParen, .symbol .semicolon] := by
  have hlist : ∀ {list : List Token} {args : List Operand},
      commaListOrEmpty? Operand.ofTokens? list = some args ↔
        list = commaJoin (args.map fun arg => [arg.token]) :=
    commaListOrEmpty?_eq_some_iff (fun _ _ => Operand.ofTokens?_eq_some_iff)
      (fun o => by simpa using o.comma_ne_token) (fun _ => List.cons_ne_nil _ _)
  unfold argsOfTokens?
  constructor
  · intro h
    obtain ⟨inner, hinner, h⟩ := Option.bind_eq_some_iff.1 h
    obtain ⟨list, hcut, h⟩ := Option.bind_eq_some_iff.1 h
    rw [← List.append_eq_of_isSuffixOf?_eq_some hinner,
      ← List.append_eq_of_isSuffixOf?_eq_some hcut, hlist.1 h]
    simp
  · rintro rfl
    have hsplit : commaJoin (args.map fun arg => [arg.token]) ++
        [.symbol .closeParen, .symbol .semicolon] =
        (commaJoin (args.map fun arg => [arg.token]) ++ [.symbol .closeParen]) ++
          [.symbol .semicolon] := by simp
    rw [hsplit]
    refine Option.bind_eq_some_iff.2 ⟨_, List.isSuffixOf?_eq_some_iff_append_eq.2 rfl, ?_⟩
    exact Option.bind_eq_some_iff.2 ⟨_, List.isSuffixOf?_eq_some_iff_append_eq.2 rfl, hlist.2 rfl⟩

/-! ## Statements -/

/-- **A statement is read from its tokens and from nothing else.** -/
theorem Statement.ofTokens?_eq_some_iff {ts : List Token} {st : Statement} :
    Statement.ofTokens? ts = some st ↔
      ts = st.tokens ∧ ∀ d, st = .declaration d → d.items ≠ [] := by
  constructor
  · intro h
    unfold ofTokens? at h
    split at h
    · obtain ⟨d, hd, rfl⟩ := Option.map_eq_some_iff.1 h
      obtain ⟨hfinal, hne, rfl⟩ := Declaration.ofTokens?_eq_some_iff.1 hd
      refine ⟨by simp [tokens, Declaration.tokens, finalTokens, hfinal], ?_⟩
      rintro _ ⟨⟩
      exact hne
    · obtain ⟨args, hargs, rfl⟩ := Option.map_eq_some_iff.1 h
      rw [Call.argsOfTokens?_eq_some_iff.1 hargs]
      exact ⟨rfl, nofun⟩
    · obtain ⟨o, ho, rfl⟩ := Option.map_eq_some_iff.1 h
      rw [Operand.ofToken?_eq_some_iff.1 ho]
      exact ⟨rfl, nofun⟩
    · obtain ⟨d, hd, rfl⟩ := Option.map_eq_some_iff.1 h
      obtain ⟨hfinal, hne, rfl⟩ := Declaration.ofTokens?_eq_some_iff.1 hd
      refine ⟨by simp [tokens, Declaration.tokens, finalTokens, hfinal], ?_⟩
      rintro _ ⟨⟩
      exact hne
  · rintro ⟨rfl, hitems⟩
    cases st with
    | declaration d =>
      have hd : Declaration.ofTokens? d.isFinal
          (.type d.ty :: commaJoin (d.items.map Declarator.tokens) ++ [.symbol .semicolon]) =
            some d :=
        Declaration.ofTokens?_eq_some_iff.2 ⟨rfl, hitems d rfl, rfl⟩
      cases hf : d.isFinal with
      | true =>
        rw [hf] at hd
        simpa [tokens, Declaration.tokens, finalTokens, hf, ofTokens?] using hd
      | false =>
        rw [hf] at hd
        simpa [tokens, Declaration.tokens, finalTokens, hf, ofTokens?] using hd
    | assignment a =>
      have ha : Operand.ofToken? a.value.token = some a.value := Operand.ofToken?_eq_some_iff.2 rfl
      simp [tokens, Assignment.tokens, ofTokens?, ha]
    | call c =>
      have hargs : Call.argsOfTokens? (commaJoin (c.args.map fun arg => [arg.token]) ++
          [.symbol .closeParen, .symbol .semicolon]) = some c.args :=
        Call.argsOfTokens?_eq_some_iff.2 rfl
      simp [tokens, Call.tokens, ofTokens?, hargs]

/-! ## Method headers -/

theorem Parameter.ofTypedTokens?_eq_some_iff {isFinal : Bool} {ts : List Token} {p : Parameter} :
    Parameter.ofTypedTokens? isFinal ts = some p ↔
      p.isFinal = isFinal ∧ ts = .type p.ty :: Declarator.tokens ⟨p.name, p.initial⟩ := by
  constructor
  · intro h
    unfold ofTypedTokens? at h
    split at h
    · obtain ⟨d, hd, rfl⟩ := Option.map_eq_some_iff.1 h
      rw [Declarator.ofTokens?_eq_some_iff.1 hd]
      exact ⟨rfl, rfl⟩
    · cases h
  · rintro ⟨rfl, rfl⟩
    have hd : Declarator.ofTokens? (Declarator.tokens ⟨p.name, p.initial⟩) =
        some ⟨p.name, p.initial⟩ :=
      Declarator.ofTokens?_eq_some_iff.2 rfl
    simp [ofTypedTokens?, hd]

theorem Parameter.ofTokens?_eq_some_iff {ts : List Token} {p : Parameter} :
    Parameter.ofTokens? ts = some p ↔ ts = p.tokens := by
  constructor
  · intro h
    unfold ofTokens? at h
    split at h
    · obtain ⟨hfinal, rfl⟩ := ofTypedTokens?_eq_some_iff.1 h
      simp [tokens, finalTokens, hfinal]
    · obtain ⟨hfinal, rfl⟩ := ofTypedTokens?_eq_some_iff.1 h
      simp [tokens, finalTokens, hfinal]
  · rintro rfl
    have hp := ofTypedTokens?_eq_some_iff.2 ⟨(rfl : p.isFinal = p.isFinal), rfl⟩
    cases hf : p.isFinal with
    | true =>
      rw [hf] at hp
      simpa [tokens, finalTokens, hf, ofTokens?] using hp
    | false =>
      rw [hf] at hp
      simpa [tokens, finalTokens, hf, ofTokens?] using hp

theorem Parameter.comma_not_mem_tokens (p : Parameter) : Token.symbol .comma ∉ p.tokens := by
  have hd := Declarator.comma_not_mem_tokens ⟨p.name, p.initial⟩
  cases hf : p.isFinal <;> simp [tokens, finalTokens, hf, hd]

/-- **A method header is read from its tokens and from nothing else.** -/
theorem MethodHeader.ofTokens?_eq_some_iff {ts : List Token} {m : MethodHeader} :
    MethodHeader.ofTokens? ts = some m ↔ ts = m.tokens ∧ isMethodName m.name = true := by
  have hlist : ∀ {list : List Token} {params : List Parameter},
      commaListOrEmpty? Parameter.ofTokens? list = some params ↔
        list = commaJoin (params.map Parameter.tokens) :=
    commaListOrEmpty?_eq_some_iff (fun _ _ => Parameter.ofTokens?_eq_some_iff)
      Parameter.comma_not_mem_tokens (fun p => by simp [Parameter.tokens])
  constructor
  · intro h
    unfold ofTokens? at h
    split at h
    · obtain ⟨inner, hinner, h⟩ := Option.bind_eq_some_iff.1 h
      obtain ⟨list, hcut, h⟩ := Option.bind_eq_some_iff.1 h
      obtain ⟨params, hparams, h⟩ := Option.bind_eq_some_iff.1 h
      split at h
      · rename_i hname
        cases h
        refine ⟨?_, hname⟩
        rw [← List.append_eq_of_isSuffixOf?_eq_some hinner,
          ← List.append_eq_of_isSuffixOf?_eq_some hcut, hlist.1 hparams]
        simp [tokens]
      · cases h
    · cases h
  · rintro ⟨rfl, hname⟩
    have hsplit : m.tokens = .keyword .voidWord :: .ident m.name :: .symbol .openParen ::
        ((commaJoin (m.params.map Parameter.tokens) ++ [.symbol .closeParen]) ++
          [.symbol .openBrace]) := by simp [tokens]
    rw [hsplit, ofTokens?]
    refine Option.bind_eq_some_iff.2 ⟨_, List.isSuffixOf?_eq_some_iff_append_eq.2 rfl, ?_⟩
    refine Option.bind_eq_some_iff.2 ⟨_, List.isSuffixOf?_eq_some_iff_append_eq.2 rfl, ?_⟩
    exact Option.bind_eq_some_iff.2 ⟨m.params, hlist.2 rfl, if_pos hname⟩

end LineCheck
