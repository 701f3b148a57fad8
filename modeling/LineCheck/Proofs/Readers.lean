import LineCheck.Proofs.Grammar

/-!
Grammars that are read from the left.

A reader (`Reader`) takes what it can from the beginning of a token sequence and
leaves the rest. Readers are put together by sequence, ordered choice (`<|>`),
`optional` and comma lists (`Reader.commaList`): the first choice that reads
something wins, an option is taken where it can be, and a comma list goes on as
long as an item stands after a comma. Nothing is taken back once it has won, so
it is not obvious that `Reader.statement` reads every statement.

It does. A reader is exact (`Reader.Exact`) if it takes what is written and
nothing else, where certain tokens do not come next, and each part of the
grammar is exact. So reading from the left gives the same as cutting at the
commas (`whole_statement`, `filter_whole_methodHeader`), and both give back what
`Statement.tokens` and `MethodHeader.tokens` write.
-/

namespace LineCheck

/-- Reads a beginning of a token sequence, and leaves the rest. -/
abbrev Reader (α : Type) := StateT (List Token) Option α

namespace Reader

variable {α β : Type}

/-- A reader of whole sequences: nothing may be left. -/
def whole (p : Reader α) (ts : List Token) : Option α :=
  match p ts with
  | some (a, []) => some a
  | _ => none

/-- One token. -/
def select (read? : Token → Option α) : Reader α
  | [] => none
  | t :: ts => (read? t).map fun a => (a, ts)

/-- The token `t`. -/
def just (t : Token) : Reader Unit :=
  select fun u => if u = t then some () else none

/-- Up to `n` items, each after a comma. A comma that no item follows is left. -/
def moreItems (item : Reader α) : Nat → Reader (List α)
  | 0 => pure []
  | n + 1 =>
    (do
      just (.symbol .comma)
      let a ← item
      let as ← moreItems item n
      return a :: as) <|> pure []

/-- Items with a comma between each two. There are no more of them than tokens. -/
def commaList (item : Reader α) : Reader (List α) := fun ts =>
  ((do
      let a ← item
      let as ← moreItems item ts.length
      return a :: as) <|> pure []) ts

/-- At least one item, with a comma between each two. -/
def commaList1 (item : Reader α) : Reader (List α) := do
  let as ← commaList item
  if as.isEmpty then failure else return as

/-! ## Statements and method headers -/

/-- A name. -/
def ident : Reader String :=
  select fun
    | .ident name => some name
    | _ => none

/-- A type. -/
def type : Reader Ty :=
  select fun
    | .type ty => some ty
    | _ => none

/-- Whether the word for a final variable stands here. -/
def finalWord : Reader Bool :=
  Option.isSome <$> optional (just (.keyword .finalWord))

/-- A name or a literal. -/
def operand : Reader Operand :=
  select Operand.ofToken?

/-- The value that a variable is given, if any. -/
def initializer : Reader (Option Operand) :=
  optional do
    just (.symbol .assign)
    operand

/-- A variable of a declaration. -/
def declarator : Reader Declarator := do
  let name ← ident
  let value ← initializer
  return ⟨name, value⟩

/-- A declaration. -/
def declaration : Reader Declaration := do
  let isFinal ← finalWord
  let ty ← type
  let items ← commaList1 declarator
  just (.symbol .semicolon)
  return ⟨isFinal, ty, items⟩

/-- An assignment. -/
def assignment : Reader Assignment := do
  let name ← ident
  just (.symbol .assign)
  let value ← operand
  just (.symbol .semicolon)
  return ⟨name, value⟩

/-- A call. -/
def call : Reader Call := do
  let name ← ident
  just (.symbol .openParen)
  let args ← commaList operand
  just (.symbol .closeParen)
  just (.symbol .semicolon)
  return ⟨name, args⟩

/-- A statement: a declaration, or else an assignment, or else a call. -/
def statement : Reader Statement :=
  Statement.declaration <$> declaration <|> Statement.assignment <$> assignment <|>
    Statement.call <$> call

/-- A parameter. -/
def parameter : Reader Parameter := do
  let isFinal ← finalWord
  let ty ← type
  let name ← ident
  let initial ← initializer
  return ⟨isFinal, ty, name, initial⟩

/-- A method header, whatever the name of the method is. -/
def methodHeader : Reader MethodHeader := do
  just (.keyword .voidWord)
  let name ← ident
  just (.symbol .openParen)
  let params ← commaList parameter
  just (.symbol .closeParen)
  just (.symbol .openBrace)
  return ⟨name, params⟩

/-! ## Sequences and choices -/

section Laws

variable {p q : Reader α} {f : α → Reader β} {ts mid rest : List Token} {a : α} {b : β}

theorem bind_of_some (h : p ts = some (a, mid)) : (p >>= f) ts = f a mid := by
  simp [bind, StateT.bind, h]

theorem bind_of_none (h : p ts = none) : (p >>= f) ts = none := by
  simp [bind, StateT.bind, h]

theorem bind_eq_some_iff :
    (p >>= f) ts = some (b, rest) ↔ ∃ a mid, p ts = some (a, mid) ∧ f a mid = some (b, rest) := by
  rcases h : p ts with _ | ⟨a, mid⟩
  · simp [bind_of_none h]
  · rw [bind_of_some h]
    refine ⟨fun hf => ⟨a, mid, rfl, hf⟩, ?_⟩
    rintro ⟨a', mid', heq, hf⟩
    cases heq
    exact hf

theorem pure_apply (a : α) (ts : List Token) : (pure a : Reader α) ts = some (a, ts) :=
  rfl

theorem pure_eq_some_iff {a' : α} :
    (pure a' : Reader α) ts = some (a, rest) ↔ a' = a ∧ ts = rest := by
  rw [pure_apply, Option.some.injEq, Prod.mk.injEq]

theorem orElse_apply : (p <|> q) ts = (p ts).or (q ts) := by
  have h : (p <|> q) ts = (p ts <|> q ts) := rfl
  rw [h, Option.orElse_eq_orElse, Option.orElse_eq_or]

theorem map_apply (g : α → β) : (g <$> p) ts = (p ts).map (Prod.map g id) := by
  rcases h : p ts with _ | ⟨a, mid⟩ <;> simp [Functor.map, StateT.map, h]

theorem optional_of_some (h : p ts = some (a, rest)) : optional p ts = some (some a, rest) := by
  simp [optional, orElse_apply, map_apply, h]

theorem optional_of_none (h : p ts = none) : optional p ts = some (none, ts) := by
  simp [optional, orElse_apply, map_apply, h, pure_apply]

theorem whole_eq_some_iff : whole p ts = some a ↔ p ts = some (a, []) := by
  unfold whole
  split <;> simp_all

theorem just_eq_some_iff {t : Token} {u : Unit} : just t ts = some (u, rest) ↔ ts = t :: rest := by
  cases ts with
  | nil => simp [just, select]
  | cons t' ts => by_cases h : t' = t <;> simp [just, select, h]

theorem just_cons (t : Token) (ts : List Token) : just t (t :: ts) = some ((), ts) :=
  just_eq_some_iff.2 rfl

end Laws

/-! ## Exact readers -/

/-- What a reader takes is what is written for its result, and it takes what is
    written, unless one of the tokens `barred` comes next. -/
structure Exact (p : Reader α) (write : α → List Token) (barred : List Token) : Prop where
  sound : ∀ {ts a rest}, p ts = some (a, rest) → ts = write a ++ rest
  complete : ∀ a {rest}, (∀ t ∈ barred, rest.head? ≠ some t) → p (write a ++ rest) = some (a, rest)

theorem exact_select {read? : Token → Option α} {write : α → Token}
    (h : ∀ t a, read? t = some a ↔ t = write a) : Exact (select read?) (fun a => [write a]) [] where
  sound {ts a rest} hts := by
    cases ts with
    | nil => cases hts
    | cons t ts =>
      obtain ⟨a', ha, heq⟩ := Option.map_eq_some_iff.1 hts
      cases heq
      rw [(h t a).1 ha]
      rfl
  complete a rest _ := by simp [select, (h _ a).2 rfl]

theorem exact_just (t : Token) : Exact (just t) (fun _ => [t]) [] :=
  exact_select fun u _ => by by_cases h : u = t <;> simp [h]

theorem exact_ident : Exact ident (fun name => [.ident name]) [] :=
  exact_select fun t _ => by cases t <;> simp

theorem exact_type : Exact type (fun ty => [.type ty]) [] :=
  exact_select fun t _ => by cases t <;> simp

theorem exact_operand : Exact operand (fun o => [o.token]) [] :=
  exact_select fun _ _ => Operand.ofToken?_eq_some_iff

namespace Exact

variable {p : Reader α} {write : α → List Token} {barred : List Token}

theorem map (h : Exact p write barred) {g : α → β} (g' : β → α) (hg : ∀ b, g (g' b) = b)
    {write' : β → List Token} (hwrite : ∀ a, write' (g a) = write a) :
    Exact (g <$> p) write' barred where
  sound {ts b rest} hts := by
    rw [map_apply] at hts
    obtain ⟨⟨a, mid⟩, ha, heq⟩ := Option.map_eq_some_iff.1 hts
    cases heq
    rw [h.sound ha, hwrite]
    rfl
  complete b rest hrest := by
    have hb : write' b = write (g' b) := by rw [← hwrite, hg]
    rw [map_apply, hb, h.complete (g' b) hrest]
    simp [hg]

/-- An option that begins with the token `t` is left out only where another
    token comes next. -/
theorem optional (h : Exact p write barred) {t : Token} (hfirst : ∀ a, (write a).head? = some t) :
    Exact (optional p) (fun o => o.elim [] write) (t :: barred) where
  sound {ts o rest} hts := by
    rcases hp : p ts with _ | ⟨a, mid⟩
    · rw [optional_of_none hp] at hts
      cases hts
      rfl
    · rw [optional_of_some hp] at hts
      cases hts
      exact h.sound hp
  complete o rest hrest := by
    rw [List.forall_mem_cons] at hrest
    cases o with
    | some a => exact optional_of_some (h.complete a hrest.2)
    | none =>
      -- what is read would begin with `t`
      have hnone : p rest = none := by
        rw [Option.eq_none_iff_forall_ne_some]
        rintro ⟨a, mid⟩ hp
        rw [h.sound hp, List.head?_append, hfirst a] at hrest
        exact hrest.1 rfl
      exact optional_of_none hnone

end Exact

/-! ## Comma lists -/

/-- Items that follow others. -/
def moreTokens (write : α → List Token) (as : List α) : List Token :=
  as.flatMap fun a => .symbol .comma :: write a

theorem commaJoin_map_cons (write : α → List Token) (a : α) (as : List α) :
    commaJoin ((a :: as).map write) = write a ++ moreTokens write as := by
  induction as generalizing a with
  | nil => simp [commaJoin, moreTokens]
  | cons b as ih =>
    rw [List.map_cons, List.map_cons, commaJoin_cons_cons, ← List.map_cons, ih b]
    simp [moreTokens]

theorem length_le_moreTokens (write : α → List Token) (as : List α) :
    as.length ≤ (moreTokens write as).length := by
  induction as with
  | nil => simp
  | cons a as ih =>
    simp only [moreTokens, List.flatMap_cons, List.length_append, List.length_cons] at ih ⊢
    omega

section CommaList

variable {item : Reader α} {write : α → List Token} {barred : List Token}

theorem moreItems_sound (h : Exact item write barred) {n : Nat} {ts rest : List Token} {as : List α}
    (hts : moreItems item n ts = some (as, rest)) : ts = moreTokens write as ++ rest := by
  induction n generalizing ts as with
  | zero =>
    obtain ⟨rfl, rfl⟩ := pure_eq_some_iff.1 hts
    rfl
  | succ n ih =>
    rw [moreItems, orElse_apply] at hts
    rcases Option.or_eq_some_iff.1 hts with hts | ⟨-, hts⟩
    · obtain ⟨u, mid, hcomma, hts⟩ := bind_eq_some_iff.1 hts
      obtain ⟨a, mid', ha, hts⟩ := bind_eq_some_iff.1 hts
      obtain ⟨as', mid'', has, hts⟩ := bind_eq_some_iff.1 hts
      obtain ⟨rfl, rfl⟩ := pure_eq_some_iff.1 hts
      rw [just_eq_some_iff.1 hcomma, h.sound ha, ih has]
      simp [moreTokens]
    · obtain ⟨rfl, rfl⟩ := pure_eq_some_iff.1 hts
      rfl

/-- After an item comes the comma before the next one, or the rest. -/
theorem item_before_more (h : Exact item write barred) (hcomma : .symbol .comma ∉ barred)
    {rest : List Token} (hrest : ∀ t ∈ barred, rest.head? ≠ some t) (a : α) (as : List α) :
    item (write a ++ (moreTokens write as ++ rest)) = some (a, moreTokens write as ++ rest) := by
  refine h.complete a fun t ht => ?_
  cases as with
  | nil => exact hrest t ht
  | cons b as =>
    intro heq
    cases heq
    exact hcomma ht

theorem moreItems_complete (h : Exact item write barred) (hcomma : .symbol .comma ∉ barred)
    {rest : List Token} (hnext : rest.head? ≠ some (.symbol .comma))
    (hrest : ∀ t ∈ barred, rest.head? ≠ some t) {as : List α} {n : Nat} (hn : as.length ≤ n) :
    moreItems item n (moreTokens write as ++ rest) = some (as, rest) := by
  induction as generalizing n with
  | nil =>
    cases n with
    | zero => rfl
    | succ n =>
      have hjust : just (.symbol .comma) rest = none := by
        rw [Option.eq_none_iff_forall_ne_some]
        rintro ⟨u, mid⟩ hmid
        rw [just_eq_some_iff.1 hmid] at hnext
        exact hnext rfl
      rw [moreItems, orElse_apply, moreTokens, List.flatMap_nil, List.nil_append,
        bind_of_none hjust]
      rfl
  | cons a as ih =>
    obtain ⟨n, rfl⟩ : ∃ k, n = k + 1 := ⟨n - 1, by simp at hn; omega⟩
    have hsplit : moreTokens write (a :: as) ++ rest =
        .symbol .comma :: (write a ++ (moreTokens write as ++ rest)) := by simp [moreTokens]
    rw [moreItems, orElse_apply, hsplit, bind_of_some (just_cons _ _),
      bind_of_some (item_before_more h hcomma hrest a as), bind_of_some (ih (by simpa using hn))]
    rfl

theorem commaList_sound (h : Exact item write barred) {ts rest : List Token} {as : List α}
    (hts : commaList item ts = some (as, rest)) : ts = commaJoin (as.map write) ++ rest := by
  rw [commaList, orElse_apply] at hts
  rcases Option.or_eq_some_iff.1 hts with hts | ⟨-, hts⟩
  · obtain ⟨a, mid, ha, hts⟩ := bind_eq_some_iff.1 hts
    obtain ⟨as', mid', has, hts⟩ := bind_eq_some_iff.1 hts
    obtain ⟨rfl, rfl⟩ := pure_eq_some_iff.1 hts
    rw [h.sound ha, moreItems_sound h has, commaJoin_map_cons, List.append_assoc]
  · obtain ⟨rfl, rfl⟩ := pure_eq_some_iff.1 hts
    rfl

/-- A comma list is taken whole. If it is empty, no item may follow. -/
theorem commaList_complete (h : Exact item write barred) (hcomma : .symbol .comma ∉ barred)
    {rest : List Token} (hnext : rest.head? ≠ some (.symbol .comma))
    (hrest : ∀ t ∈ barred, rest.head? ≠ some t) {as : List α}
    (hempty : as = [] → item rest = none) :
    commaList item (commaJoin (as.map write) ++ rest) = some (as, rest) := by
  cases as with
  | nil =>
    rw [commaList, orElse_apply, List.map_nil]
    have hnone : item (commaJoin [] ++ rest) = none := hempty rfl
    rw [bind_of_none hnone]
    rfl
  | cons a as =>
    have hlength : as.length ≤ (write a ++ (moreTokens write as ++ rest)).length := by
      have := length_le_moreTokens write as
      simp only [List.length_append]
      omega
    rw [commaList, orElse_apply, commaJoin_map_cons, List.append_assoc,
      bind_of_some (item_before_more h hcomma hrest a as),
      bind_of_some (moreItems_complete h hcomma hnext hrest hlength)]
    rfl

theorem commaList1_sound (h : Exact item write barred) {ts rest : List Token} {as : List α}
    (hts : commaList1 item ts = some (as, rest)) :
    as ≠ [] ∧ ts = commaJoin (as.map write) ++ rest := by
  obtain ⟨as', mid, has, hts⟩ := bind_eq_some_iff.1 hts
  cases as' with
  | nil => cases hts
  | cons a as' =>
    obtain ⟨rfl, rfl⟩ := pure_eq_some_iff.1 hts
    exact ⟨List.cons_ne_nil _ _, commaList_sound h has⟩

theorem commaList1_complete (h : Exact item write barred) (hcomma : .symbol .comma ∉ barred)
    {rest : List Token} (hnext : rest.head? ≠ some (.symbol .comma))
    (hrest : ∀ t ∈ barred, rest.head? ≠ some t) {as : List α} (has : as ≠ []) :
    commaList1 item (commaJoin (as.map write) ++ rest) = some (as, rest) := by
  rw [commaList1,
    bind_of_some (commaList_complete h hcomma hnext hrest fun hnil => absurd hnil has)]
  simp [has, pure_apply]

end CommaList

/-! ## The parts of the grammar -/

theorem exact_finalWord : Exact finalWord finalTokens [.keyword .finalWord] := by
  have hword := (exact_just (.keyword .finalWord)).optional fun _ => rfl
  refine hword.map (fun isFinal => if isFinal then some () else none) ?_ ?_
  · intro isFinal
    cases isFinal <;> rfl
  · intro word
    cases word <;> rfl

theorem exact_initializer :
    Exact initializer (fun value => value.elim [] fun o => [.symbol .assign, o.token])
      [.symbol .assign] := by
  have hassigned : Exact (do just (.symbol .assign); operand)
      (fun o => [.symbol .assign, o.token]) [] := by
    constructor
    · intro ts o rest hts
      obtain ⟨u, mid, hassign, ho⟩ := bind_eq_some_iff.1 hts
      rw [just_eq_some_iff.1 hassign, exact_operand.sound ho]
      rfl
    · intro o rest hrest
      rw [List.cons_append, bind_of_some (just_cons _ _)]
      exact exact_operand.complete o hrest
  exact hassigned.optional fun _ => rfl

theorem tokens_declarator (d : Declarator) :
    d.tokens = [.ident d.name] ++ d.value.elim [] fun o => [.symbol .assign, o.token] := by
  obtain ⟨name, _ | value⟩ := d <;> rfl

theorem exact_declarator : Exact declarator Declarator.tokens [.symbol .assign] where
  sound {ts d rest} hts := by
    obtain ⟨name, ts₁, hname, hts⟩ := bind_eq_some_iff.1 hts
    obtain ⟨value, ts₂, hvalue, hts⟩ := bind_eq_some_iff.1 hts
    obtain ⟨rfl, rfl⟩ := pure_eq_some_iff.1 hts
    rw [exact_ident.sound hname, exact_initializer.sound hvalue, tokens_declarator,
      List.append_assoc]
  complete d rest hrest := by
    rw [tokens_declarator, List.append_assoc, declarator,
      bind_of_some (exact_ident.complete d.name (by simp)),
      bind_of_some (exact_initializer.complete d.value hrest)]
    rfl

theorem exact_parameter : Exact parameter Parameter.tokens [.symbol .assign] where
  sound {ts param rest} hts := by
    obtain ⟨isFinal, ts₁, hfinal, hts⟩ := bind_eq_some_iff.1 hts
    obtain ⟨ty, ts₂, hty, hts⟩ := bind_eq_some_iff.1 hts
    obtain ⟨name, ts₃, hname, hts⟩ := bind_eq_some_iff.1 hts
    obtain ⟨initial, ts₄, hinitial, hts⟩ := bind_eq_some_iff.1 hts
    obtain ⟨rfl, rfl⟩ := pure_eq_some_iff.1 hts
    rw [exact_finalWord.sound hfinal, exact_type.sound hty, exact_ident.sound hname,
      exact_initializer.sound hinitial, Parameter.tokens, tokens_declarator]
    simp
  complete param rest hrest := by
    have hsplit : param.tokens ++ rest = finalTokens param.isFinal ++ ([.type param.ty] ++
        ([.ident param.name] ++ ((param.initial.elim [] fun o => [.symbol .assign, o.token]) ++
          rest))) := by simp [Parameter.tokens, tokens_declarator]
    rw [hsplit, parameter, bind_of_some (exact_finalWord.complete param.isFinal (by simp)),
      bind_of_some (exact_type.complete param.ty (by simp)),
      bind_of_some (exact_ident.complete param.name (by simp)),
      bind_of_some (exact_initializer.complete param.initial hrest)]
    rfl

/-! ## Statements and method headers as a whole -/

theorem declaration_sound {ts rest : List Token} {d : Declaration}
    (hts : declaration ts = some (d, rest)) : ts = d.tokens ++ rest ∧ d.items ≠ [] := by
  obtain ⟨isFinal, ts₁, hfinal, hts⟩ := bind_eq_some_iff.1 hts
  obtain ⟨ty, ts₂, hty, hts⟩ := bind_eq_some_iff.1 hts
  obtain ⟨items, ts₃, hitems, hts⟩ := bind_eq_some_iff.1 hts
  obtain ⟨_, ts₄, hend, hts⟩ := bind_eq_some_iff.1 hts
  obtain ⟨rfl, rfl⟩ := pure_eq_some_iff.1 hts
  obtain ⟨hne, hlist⟩ := commaList1_sound exact_declarator hitems
  refine ⟨?_, hne⟩
  rw [exact_finalWord.sound hfinal, exact_type.sound hty, hlist, just_eq_some_iff.1 hend]
  simp [Declaration.tokens]

theorem declaration_complete {d : Declaration} (hd : d.items ≠ []) (rest : List Token) :
    declaration (d.tokens ++ rest) = some (d, rest) := by
  have hsplit : d.tokens ++ rest = finalTokens d.isFinal ++ ([.type d.ty] ++
      (commaJoin (d.items.map Declarator.tokens) ++ .symbol .semicolon :: rest)) := by
    simp [Declaration.tokens]
  have hitems : commaList1 declarator
      (commaJoin (d.items.map Declarator.tokens) ++ .symbol .semicolon :: rest) =
        some (d.items, .symbol .semicolon :: rest) :=
    commaList1_complete exact_declarator (by simp) (by simp) (by simp) hd
  rw [hsplit, declaration, bind_of_some (exact_finalWord.complete d.isFinal (by simp)),
    bind_of_some (exact_type.complete d.ty (by simp)), bind_of_some hitems,
    bind_of_some (just_cons _ _)]
  rfl

theorem exact_assignment : Exact assignment Assignment.tokens [] where
  sound {ts a rest} hts := by
    obtain ⟨name, ts₁, hname, hts⟩ := bind_eq_some_iff.1 hts
    obtain ⟨_, ts₂, hassign, hts⟩ := bind_eq_some_iff.1 hts
    obtain ⟨value, ts₃, hvalue, hts⟩ := bind_eq_some_iff.1 hts
    obtain ⟨_, ts₄, hend, hts⟩ := bind_eq_some_iff.1 hts
    obtain ⟨rfl, rfl⟩ := pure_eq_some_iff.1 hts
    rw [exact_ident.sound hname, just_eq_some_iff.1 hassign, exact_operand.sound hvalue,
      just_eq_some_iff.1 hend]
    rfl
  complete a rest _ := by
    have hsplit : a.tokens ++ rest = [.ident a.name] ++ (.symbol .assign ::
        ([a.value.token] ++ .symbol .semicolon :: rest)) := rfl
    rw [hsplit, assignment, bind_of_some (exact_ident.complete a.name (by simp)),
      bind_of_some (just_cons _ _), bind_of_some (exact_operand.complete a.value (by simp)),
      bind_of_some (just_cons _ _)]
    rfl

theorem exact_call : Exact call Call.tokens [] where
  sound {ts c rest} hts := by
    obtain ⟨name, ts₁, hname, hts⟩ := bind_eq_some_iff.1 hts
    obtain ⟨_, ts₂, hopen, hts⟩ := bind_eq_some_iff.1 hts
    obtain ⟨args, ts₃, hargs, hts⟩ := bind_eq_some_iff.1 hts
    obtain ⟨_, ts₄, hclose, hts⟩ := bind_eq_some_iff.1 hts
    obtain ⟨_, ts₅, hend, hts⟩ := bind_eq_some_iff.1 hts
    obtain ⟨rfl, rfl⟩ := pure_eq_some_iff.1 hts
    rw [exact_ident.sound hname, just_eq_some_iff.1 hopen, commaList_sound exact_operand hargs,
      just_eq_some_iff.1 hclose, just_eq_some_iff.1 hend]
    simp [Call.tokens]
  complete c rest _ := by
    have hsplit : c.tokens ++ rest = [.ident c.name] ++ (.symbol .openParen ::
        (commaJoin (c.args.map fun arg => [arg.token]) ++
          .symbol .closeParen :: .symbol .semicolon :: rest)) := by simp [Call.tokens]
    have hargs : commaList operand (commaJoin (c.args.map fun arg => [arg.token]) ++
        .symbol .closeParen :: .symbol .semicolon :: rest) =
          some (c.args, .symbol .closeParen :: .symbol .semicolon :: rest) :=
      commaList_complete exact_operand (by simp) (by simp) (by simp) fun _ => rfl
    rw [hsplit, call, bind_of_some (exact_ident.complete c.name (by simp)),
      bind_of_some (just_cons _ _), bind_of_some hargs, bind_of_some (just_cons _ _),
      bind_of_some (just_cons _ _)]
    rfl

theorem exact_methodHeader : Exact methodHeader MethodHeader.tokens [] where
  sound {ts m rest} hts := by
    obtain ⟨_, ts₁, hvoid, hts⟩ := bind_eq_some_iff.1 hts
    obtain ⟨name, ts₂, hname, hts⟩ := bind_eq_some_iff.1 hts
    obtain ⟨_, ts₃, hopen, hts⟩ := bind_eq_some_iff.1 hts
    obtain ⟨params, ts₄, hparams, hts⟩ := bind_eq_some_iff.1 hts
    obtain ⟨_, ts₅, hclose, hts⟩ := bind_eq_some_iff.1 hts
    obtain ⟨_, ts₆, hend, hts⟩ := bind_eq_some_iff.1 hts
    obtain ⟨rfl, rfl⟩ := pure_eq_some_iff.1 hts
    rw [just_eq_some_iff.1 hvoid, exact_ident.sound hname, just_eq_some_iff.1 hopen,
      commaList_sound exact_parameter hparams, just_eq_some_iff.1 hclose, just_eq_some_iff.1 hend]
    simp [MethodHeader.tokens]
  complete m rest _ := by
    have hsplit : m.tokens ++ rest = .keyword .voidWord :: ([.ident m.name] ++
        .symbol .openParen :: (commaJoin (m.params.map Parameter.tokens) ++
          .symbol .closeParen :: .symbol .openBrace :: rest)) := by simp [MethodHeader.tokens]
    have hparams : commaList parameter (commaJoin (m.params.map Parameter.tokens) ++
        .symbol .closeParen :: .symbol .openBrace :: rest) =
          some (m.params, .symbol .closeParen :: .symbol .openBrace :: rest) :=
      commaList_complete exact_parameter (by simp) (by simp) (by simp) fun _ => rfl
    rw [hsplit, methodHeader, bind_of_some (just_cons _ _),
      bind_of_some (exact_ident.complete m.name (by simp)), bind_of_some (just_cons _ _),
      bind_of_some hparams, bind_of_some (just_cons _ _), bind_of_some (just_cons _ _)]
    rfl

/-! ## Whole sequences -/

theorem Exact.whole_eq_some_iff {p : Reader α} {write : α → List Token} {barred : List Token}
    (h : Exact p write barred) {ts : List Token} {a : α} : whole p ts = some a ↔ ts = write a := by
  rw [Reader.whole_eq_some_iff]
  constructor
  · intro hts
    rw [h.sound hts, List.append_nil]
  · rintro rfl
    have hwrite : p (write a ++ []) = some (a, []) := h.complete a (by simp)
    rwa [List.append_nil] at hwrite

/-- What an exact reader reads has one reading. -/
theorem Exact.injective {p : Reader α} {write : α → List Token} {barred : List Token}
    (h : Exact p write barred) : Function.Injective write := by
  intro a a' heq
  have ha : whole p (write a) = some a' := h.whole_eq_some_iff.2 heq
  rw [h.whole_eq_some_iff.2 rfl] at ha
  exact Option.some.inj ha

theorem whole_declaration_eq_some_iff {ts : List Token} {d : Declaration} :
    whole declaration ts = some d ↔ ts = d.tokens ∧ d.items ≠ [] := by
  rw [Reader.whole_eq_some_iff]
  constructor
  · intro hts
    obtain ⟨heq, hne⟩ := declaration_sound hts
    exact ⟨by rw [heq, List.append_nil], hne⟩
  · rintro ⟨rfl, hne⟩
    have hd := declaration_complete hne []
    rwa [List.append_nil] at hd

theorem declaration_ident_cons (name : String) (ts : List Token) :
    declaration (.ident name :: ts) = none :=
  rfl

theorem assignment_openParen (name : String) (ts : List Token) :
    assignment (.ident name :: .symbol .openParen :: ts) = none :=
  rfl

/-- The first tokens tell which of the three choices can read a statement. -/
theorem whole_statement_eq_some_iff {ts : List Token} {st : Statement} :
    whole statement ts = some st ↔ ts = st.tokens ∧ ∀ d, st = .declaration d → d.items ≠ [] := by
  rw [Reader.whole_eq_some_iff, statement, orElse_apply, orElse_apply, map_apply, map_apply,
    map_apply]
  constructor
  · intro hts
    rcases Option.or_eq_some_iff.1 hts with hts | ⟨-, hts⟩
    · obtain ⟨⟨d, rest⟩, hd, heq⟩ := Option.map_eq_some_iff.1 hts
      cases heq
      obtain ⟨rfl, hne⟩ := declaration_sound hd
      refine ⟨List.append_nil _, ?_⟩
      rintro _ ⟨⟩
      exact hne
    rcases Option.or_eq_some_iff.1 hts with hts | ⟨-, hts⟩
    · obtain ⟨⟨a, rest⟩, ha, heq⟩ := Option.map_eq_some_iff.1 hts
      cases heq
      rw [exact_assignment.sound ha]
      exact ⟨List.append_nil _, nofun⟩
    · obtain ⟨⟨c, rest⟩, hc, heq⟩ := Option.map_eq_some_iff.1 hts
      cases heq
      rw [exact_call.sound hc]
      exact ⟨List.append_nil _, nofun⟩
  · rintro ⟨rfl, hitems⟩
    cases st with
    | declaration d =>
      rw [Statement.tokens,
        whole_eq_some_iff.1 (whole_declaration_eq_some_iff.2 ⟨rfl, hitems d rfl⟩)]
      rfl
    | assignment a =>
      rw [Statement.tokens, whole_eq_some_iff.1 (exact_assignment.whole_eq_some_iff.2 rfl),
        Assignment.tokens, declaration_ident_cons]
      rfl
    | call c =>
      rw [Statement.tokens, whole_eq_some_iff.1 (exact_call.whole_eq_some_iff.2 rfl), Call.tokens,
        List.cons_append, List.cons_append, declaration_ident_cons, assignment_openParen]
      rfl

/-- **Statements read from the left are those found by cutting at the commas.** -/
theorem whole_statement (ts : List Token) : whole statement ts = Statement.ofTokens? ts := by
  ext st
  rw [whole_statement_eq_some_iff, Statement.ofTokens?_eq_some_iff]

/-- **Method headers read from the left are those found by cutting at the
    commas**, but for the names that no method may have. -/
theorem filter_whole_methodHeader (ts : List Token) :
    (whole methodHeader ts).filter (MethodHeader.isMethodName ·.name) =
      MethodHeader.ofTokens? ts := by
  ext m
  rw [Option.filter_eq_some_iff, exact_methodHeader.whole_eq_some_iff,
    MethodHeader.ofTokens?_eq_some_iff]

end Reader

end LineCheck
