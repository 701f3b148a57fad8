import LineCheck.Proofs.Readers

/-!
The grammars of statements and of method headers, as facts about token
sequences.

A statement and a method header are written in one way
(`Statement.tokens_injective`), and nothing else is read as one. In what is
read, every comma stands between two items (`around_comma`), so there is none
before the first item, none after the last and no two next to each other.
-/

namespace LineCheck

/-! ## Commas -/

/-- A token that is not in the first of two parts is in the second. -/
theorem exists_of_append_eq_left {lead rest before after : List Token} {t : Token} (ht : t ∉ lead)
    (h : lead ++ rest = before ++ t :: after) :
    ∃ before', before = lead ++ before' ∧ rest = before' ++ t :: after := by
  rcases List.append_eq_append_iff.1 h with ⟨before', hbefore, hrest⟩ | ⟨c, hlead, hrest⟩
  · exact ⟨before', hbefore, hrest⟩
  · cases c with
    | nil => exact ⟨[], by simpa using hlead.symm, hrest.symm⟩
    | cons u c =>
      cases hrest
      exact absurd (by simp [hlead]) ht

theorem exists_of_append_eq_right {list trail before after : List Token} {t : Token}
    (ht : t ∉ trail) (h : list ++ trail = before ++ t :: after) :
    ∃ after', after = after' ++ trail ∧ list = before ++ t :: after' := by
  rcases List.append_eq_append_iff.1 h with ⟨c, hbefore, hrest⟩ | ⟨c, hlist, hrest⟩
  · exact absurd (by simp [hrest]) ht
  · cases c with
    | nil => exact absurd (by simp [show trail = t :: after from hrest.symm]) ht
    | cons u c =>
      cases hrest
      exact ⟨c, rfl, hlist⟩

section Around

variable {α : Type} {write : α → List Token} {First Last : Token → Prop}

/-- Before a comma of a comma list an item ends, and after it an item begins. -/
theorem around_comma (hcomma : ∀ a, .symbol .comma ∉ write a)
    (hfirst : ∀ a, ∃ t, (write a).head? = some t ∧ First t)
    (hlast : ∀ a, ∃ t, (write a).getLast? = some t ∧ Last t) {as : List α}
    {before after : List Token} (h : commaJoin (as.map write) = before ++ .symbol .comma :: after) :
    (∃ t, before.getLast? = some t ∧ Last t) ∧ ∃ t, after.head? = some t ∧ First t := by
  induction as generalizing before with
  | nil => simp [commaJoin] at h
  | cons a as ih =>
    cases as with
    | nil =>
      have ha : write a = before ++ .symbol .comma :: after := by simpa [commaJoin] using h
      exact absurd (by simp [ha]) (hcomma a)
    | cons b as =>
      rw [List.map_cons, List.map_cons, commaJoin_cons_cons, ← List.map_cons] at h
      obtain ⟨before', rfl, hrest⟩ := exists_of_append_eq_left (hcomma a) h
      cases before' with
      | nil =>
        -- the comma after the first item
        obtain ⟨t, ht, hfirst⟩ := hfirst b
        obtain rfl : commaJoin ((b :: as).map write) = after := by simpa using hrest
        refine ⟨by simpa using hlast a, t, ?_, hfirst⟩
        rw [Reader.commaJoin_map_cons, List.head?_append, ht]
        rfl
      | cons u before' =>
        obtain ⟨⟨t, ht, hlast⟩, hafter⟩ := ih (List.cons_eq_cons.1 hrest).2
        refine ⟨⟨t, ?_, hlast⟩, hafter⟩
        rw [List.getLast?_append, List.getLast?_cons, ht]
        simp

/-- So it is where other tokens stand around the list. -/
theorem around_comma_of_append (hcomma : ∀ a, .symbol .comma ∉ write a)
    (hfirst : ∀ a, ∃ t, (write a).head? = some t ∧ First t)
    (hlast : ∀ a, ∃ t, (write a).getLast? = some t ∧ Last t) {as : List α}
    {lead trail before after : List Token} (hlead : .symbol .comma ∉ lead)
    (htrail : .symbol .comma ∉ trail)
    (h : lead ++ commaJoin (as.map write) ++ trail = before ++ .symbol .comma :: after) :
    (∃ t, before.getLast? = some t ∧ Last t) ∧ ∃ t, after.head? = some t ∧ First t := by
  obtain ⟨after', rfl, hinner⟩ := exists_of_append_eq_right htrail h
  obtain ⟨before', rfl, hlist⟩ := exists_of_append_eq_left hlead hinner
  obtain ⟨⟨t, ht, hlast⟩, u, hu, hfirst⟩ := around_comma hcomma hfirst hlast hlist
  refine ⟨⟨t, ?_, hlast⟩, u, ?_, hfirst⟩
  · rw [List.getLast?_append, ht]
    rfl
  · rw [List.head?_append, hu]
    rfl

end Around

/-- A variable of a declaration begins with a name, and ends with a name or a
    literal. -/
theorem Declarator.getLast?_tokens (d : Declarator) :
    ∃ t, d.tokens.getLast? = some t ∧ ∃ o : Operand, t = o.token := by
  obtain ⟨name, _ | value⟩ := d
  · exact ⟨_, rfl, .var name, rfl⟩
  · exact ⟨_, rfl, value, rfl⟩

theorem Statement.around_comma {before after : List Token} {st : Statement}
    (h : st.tokens = before ++ .symbol .comma :: after) :
    (∃ t, before.getLast? = some t ∧ ∃ o : Operand, t = o.token) ∧
      ∃ t, after.head? = some t ∧ ∃ o : Operand, t = o.token := by
  cases st with
  | declaration d =>
    have hd : (finalTokens d.isFinal ++ [.type d.ty]) ++
        commaJoin (d.items.map Declarator.tokens) ++
        [.symbol .semicolon] = before ++ .symbol .comma :: after := by
      rw [← h]
      simp [tokens, Declaration.tokens]
    refine around_comma_of_append Declarator.comma_not_mem_tokens ?_ Declarator.getLast?_tokens ?_
      (by simp) hd
    · intro d
      exact ⟨_, rfl, .var d.name, rfl⟩
    · cases d.isFinal <;> simp [finalTokens]
  | assignment a =>
    have hmem : Token.symbol .comma ∈ a.tokens := by
      rw [tokens] at h
      simp [h]
    simp [Assignment.tokens, a.value.comma_ne_token] at hmem
  | call c =>
    have hc : [.ident c.name, .symbol .openParen] ++
        commaJoin (c.args.map fun arg => [arg.token]) ++
        [.symbol .closeParen, .symbol .semicolon] = before ++ .symbol .comma :: after := h
    have harg : ∀ o : Operand, ∃ t, some o.token = some t ∧ ∃ o : Operand, t = o.token :=
      fun o => ⟨_, rfl, o, rfl⟩
    exact around_comma_of_append (fun o => by simpa using o.comma_ne_token) harg harg (by simp)
      (by simp) hc

theorem MethodHeader.around_comma {before after : List Token} {m : MethodHeader}
    (h : m.tokens = before ++ .symbol .comma :: after) :
    (∃ t, before.getLast? = some t ∧ ∃ o : Operand, t = o.token) ∧
      ∃ t, after.head? = some t ∧ (t = .keyword .finalWord ∨ ∃ ty, t = .type ty) := by
  have hm : [.keyword .voidWord, .ident m.name, .symbol .openParen] ++
      commaJoin (m.params.map Parameter.tokens) ++ [.symbol .closeParen, .symbol .openBrace] =
        before ++ .symbol .comma :: after := h
  refine around_comma_of_append Parameter.comma_not_mem_tokens ?_ ?_ (by simp) (by simp) hm
  · intro p
    cases hf : p.isFinal
    · exact ⟨_, by simp [Parameter.tokens, finalTokens, hf], .inr ⟨p.ty, rfl⟩⟩
    · exact ⟨_, by simp [Parameter.tokens, finalTokens, hf], .inl rfl⟩
  · intro p
    obtain ⟨t, ht, ho⟩ := Declarator.getLast?_tokens ⟨p.name, p.initial⟩
    refine ⟨t, ?_, ho⟩
    rw [Parameter.tokens, List.getLast?_append, List.getLast?_cons, ht]
    simp

/-! ## One way to write -/

theorem Declaration.tokens_injective : Function.Injective Declaration.tokens := by
  intro d d' h
  obtain ⟨isFinal, ty, items⟩ := d
  obtain ⟨isFinal', ty', items'⟩ := d'
  obtain ⟨rfl, rfl, hlist⟩ : isFinal = isFinal' ∧ ty = ty' ∧
      commaJoin (items.map Declarator.tokens) = commaJoin (items'.map Declarator.tokens) := by
    cases isFinal <;> cases isFinal' <;> simp_all [tokens, finalTokens]
  have hread : ∀ items : List Declarator, commaListOrEmpty? Declarator.ofTokens?
      (commaJoin (items.map Declarator.tokens)) = some items := fun items =>
    (commaListOrEmpty?_eq_some_iff (fun _ _ => Declarator.ofTokens?_eq_some_iff)
      Declarator.comma_not_mem_tokens (fun d => by simp [Declarator.tokens])).2 rfl
  have hitems : some items' = some items := by rw [← hread items, hlist, hread items']
  cases hitems
  rfl

/-- A declaration begins with a word or a type, and other statements with a name. -/
theorem Declaration.head?_tokens_ne (d : Declaration) (name : String) :
    d.tokens.head? ≠ some (.ident name) := by
  obtain ⟨isFinal, ty, items⟩ := d
  cases isFinal <;> simp [tokens, finalTokens]

/-- **A statement is written in one way.** -/
theorem Statement.tokens_injective : Function.Injective Statement.tokens := by
  intro st st' h
  cases st with
  | declaration d =>
    cases st' with
    | declaration d' => rw [Declaration.tokens_injective h]
    | assignment a => exact absurd (congrArg List.head? h) (d.head?_tokens_ne a.name)
    | call c => exact absurd (congrArg List.head? h) (d.head?_tokens_ne c.name)
  | assignment a =>
    cases st' with
    | declaration d => exact absurd (congrArg List.head? h.symm) (d.head?_tokens_ne a.name)
    | assignment a' => rw [Reader.exact_assignment.injective h]
    | call c => simp [tokens, Assignment.tokens, Call.tokens] at h
  | call c =>
    cases st' with
    | declaration d => exact absurd (congrArg List.head? h.symm) (d.head?_tokens_ne c.name)
    | assignment a => simp [tokens, Assignment.tokens, Call.tokens] at h
    | call c' => rw [Reader.exact_call.injective h]

/-! ## The grammars -/

/-- **The grammars are exact and not ambiguous.** A token sequence is read as a
    statement if and only if it is what the statement is written as, where a
    declaration has at least one variable. Reading from the left gives the same;
    each of the three forms has a grammar of its own, and no sequence is read by
    two of them. Every comma stands between two items. The same holds of method
    headers; of these, those with a name that no method may have are refused
    afterwards. -/
theorem grammars_exact_and_unambiguous (ts : List Token) :
    (∀ st, Statement.ofTokens? ts = some st ↔
      ts = st.tokens ∧ ∀ d, st = .declaration d → d.items ≠ []) ∧
    Statement.ofTokens? ts = Reader.whole Reader.statement ts ∧
    (∀ d, Statement.ofTokens? ts = some (.declaration d) ↔
      Reader.whole Reader.declaration ts = some d) ∧
    (∀ a, Statement.ofTokens? ts = some (.assignment a) ↔
      Reader.whole Reader.assignment ts = some a) ∧
    (∀ c, Statement.ofTokens? ts = some (.call c) ↔ Reader.whole Reader.call ts = some c) ∧
    Function.Injective Statement.tokens ∧
    (∀ st before after, Statement.ofTokens? ts = some st → ts = before ++ .symbol .comma :: after →
      (∃ t, before.getLast? = some t ∧ ∃ o : Operand, t = o.token) ∧
        ∃ t, after.head? = some t ∧ ∃ o : Operand, t = o.token) ∧
    (∀ m, Reader.whole Reader.methodHeader ts = some m ↔ ts = m.tokens) ∧
    MethodHeader.ofTokens? ts =
      (Reader.whole Reader.methodHeader ts).filter (MethodHeader.isMethodName ·.name) ∧
    (∀ m, MethodHeader.ofTokens? ts = some m ↔
      ts = m.tokens ∧ MethodHeader.isMethodName m.name = true) ∧
    Function.Injective MethodHeader.tokens ∧
    ∀ m before after, Reader.whole Reader.methodHeader ts = some m →
      ts = before ++ .symbol .comma :: after →
      (∃ t, before.getLast? = some t ∧ ∃ o : Operand, t = o.token) ∧
        ∃ t, after.head? = some t ∧ (t = .keyword .finalWord ∨ ∃ ty, t = .type ty) := by
  refine ⟨fun st => Statement.ofTokens?_eq_some_iff, (Reader.whole_statement ts).symm, ?_, ?_, ?_,
    Statement.tokens_injective, ?_, fun m => Reader.exact_methodHeader.whole_eq_some_iff,
    (Reader.filter_whole_methodHeader ts).symm, fun m => MethodHeader.ofTokens?_eq_some_iff,
    Reader.exact_methodHeader.injective, ?_⟩
  · intro d
    rw [Statement.ofTokens?_eq_some_iff, Reader.whole_declaration_eq_some_iff]
    simp [Statement.tokens]
  · intro a
    rw [Statement.ofTokens?_eq_some_iff, Reader.exact_assignment.whole_eq_some_iff]
    simp [Statement.tokens]
  · intro c
    rw [Statement.ofTokens?_eq_some_iff, Reader.exact_call.whole_eq_some_iff]
    simp [Statement.tokens]
  · intro st before after hst hts
    exact Statement.around_comma ((Statement.ofTokens?_eq_some_iff.1 hst).1.symm.trans hts)
  · intro m before after hm hts
    exact MethodHeader.around_comma
      ((Reader.exact_methodHeader.whole_eq_some_iff.1 hm).symm.trans hts)

/-- A final declaration of three variables, the second of which has no value.
    Its first comma stands between a literal and a name. With two commas in a
    row nothing is read. -/
theorem grammar_of_three_variables :
    Statement.ofTokens? [.keyword .finalWord, .type .int, .ident "a", .symbol .assign,
        .literal (.int "5"), .symbol .comma, .ident "b", .symbol .comma, .ident "c",
        .symbol .assign, .ident "a", .symbol .semicolon] =
      some (.declaration ⟨true, .int, [⟨"a", some (.literal (.int "5"))⟩, ⟨"b", none⟩,
        ⟨"c", some (.var "a")⟩]⟩) ∧
    ((∃ t, [.keyword .finalWord, .type .int, .ident "a", .symbol .assign,
        .literal (.int "5")].getLast? = some t ∧ ∃ o : Operand, t = o.token) ∧
      ∃ t, [.ident "b", .symbol .comma, .ident "c", .symbol .assign, .ident "a",
        .symbol .semicolon].head? = some t ∧ ∃ o : Operand, t = o.token) ∧
    Statement.ofTokens? [.type .int, .ident "a", .symbol .comma, .symbol .comma, .ident "b",
      .symbol .semicolon] = none := by
  obtain ⟨hread, -, -, -, -, -, hcomma, -⟩ := grammars_exact_and_unambiguous
    [.keyword .finalWord, .type .int, .ident "a", .symbol .assign, .literal (.int "5"),
      .symbol .comma, .ident "b", .symbol .comma, .ident "c", .symbol .assign, .ident "a",
      .symbol .semicolon]
  have hst := (hread (.declaration ⟨true, .int, [⟨"a", some (.literal (.int "5"))⟩, ⟨"b", none⟩,
    ⟨"c", some (.var "a")⟩]⟩)).2 ⟨rfl, by rintro _ ⟨⟩; exact List.cons_ne_nil _ _⟩
  refine ⟨hst, hcomma _ _ _ hst rfl, ?_⟩
  rw [Option.eq_none_iff_forall_ne_some]
  intro st hdoubled
  obtain ⟨-, -, -, -, -, -, hcomma', -⟩ := grammars_exact_and_unambiguous
    [.type .int, .ident "a", .symbol .comma, .symbol .comma, .ident "b", .symbol .semicolon]
  obtain ⟨-, t, ht, o, ho⟩ := hcomma' st [.type .int, .ident "a"] _ hdoubled rfl
  cases ht
  exact o.comma_ne_token ho

end LineCheck
