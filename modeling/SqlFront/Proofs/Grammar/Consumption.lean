import SqlFront.Proofs.Grammar.StatementTidy

/-!
# What productions take

Every production of the grammar takes a token, unless it reads something that may be left out.  Such
a production takes none exactly where it yields that nothing is there.
-/

namespace SqlFront

namespace Production

variable {α β : Type} {p : Production α} {g : α → Production β} {k : Kind}

/-- What is read is vacant exactly where no token is taken. -/
def TakesUnless (vacant : α → Prop) (p : Production α) : Prop :=
  ∀ s a s', p.Reads s a s' → (vacant a ↔ s.tokens.length ≤ s'.tokens.length)

/-- Nothing that is read is vacant. -/
def Avoids (vacant : α → Prop) (p : Production α) : Prop :=
  ∀ s a s', p.Reads s a s' → ¬ vacant a

variable {vacant : α → Prop} {vacant' : β → Prop}

theorem avoids_pure {a : α} (h : ¬ vacant a) :
  Avoids vacant (pure a)
  := by
  intro s b s' hreads
  obtain ⟨rfl, -⟩ := reads_pure.mp hreads
  exact h

theorem avoids_bind (h : ∀ a, Avoids vacant' (g a)) :
  Avoids vacant' (p >>= g)
  := by
  intro s b s' hreads
  obtain ⟨a, m, -, hg⟩ := reads_bind.mp hreads
  apply h a m b s' hg

theorem avoids_ite {b : Prop} [Decidable b] {q : Production α} (hp : p.Avoids vacant)
    (hq : q.Avoids vacant) :
  (if b then p else q).Avoids vacant
  := by
  split
  · apply hp
  · apply hq

theorem avoids_map {f : α → β} (h : ∀ a, ¬ vacant' (f a)) :
  Avoids vacant' (f <$> p)
  := avoids_bind fun a => avoids_pure (h a)

theorem avoids_expected (wanted : String) :
  Avoids vacant (expected wanted)
  := fun _ _ _ hreads => absurd hreads reads_expected

theorem avoids_commaList (n : Nat) (p : Production α) :
  Avoids (· = []) (commaList n p)
  := by
  apply avoids_bind
  intro first
  apply avoids_bind
  intro further
  apply avoids_pure (by simp)

/-! ### Taking a token -/

theorem Consumes.takesUnless (h : p.Consumes) (hvacant : p.Avoids vacant) :
  p.TakesUnless vacant
  := fun s a s' hreads =>
    iff_of_false (hvacant s a s' hreads) (Nat.not_le.mpr (h s a s' hreads))

/-- A production that always takes a token. -/
theorem Consumes.takesUnless_false (h : p.Consumes) :
  p.TakesUnless fun _ => False
  := h.takesUnless fun _ _ _ _ => id

theorem takesUnless_pure {a : α} (h : vacant a) :
  TakesUnless vacant (pure a)
  := by
  intro s b s' hreads
  obtain ⟨rfl, rfl⟩ := reads_pure.mp hreads
  exact iff_of_true h (Nat.le_refl _)

theorem takesUnless_none :
  TakesUnless (· = none) (pure none : Production (Option α))
  := takesUnless_pure rfl

theorem takesUnless_nil :
  TakesUnless (· = []) (pure [] : Production (List α))
  := takesUnless_pure rfl

theorem takesUnless_ite {b : Prop} [Decidable b] {q : Production α} (hp : p.TakesUnless vacant)
    (hq : q.TakesUnless vacant) :
  (if b then p else q).TakesUnless vacant
  := by
  split
  · apply hp
  · apply hq

/-- Nothing is taken by looking. -/
theorem takesUnless_bind (hp : ∀ s a s', p.Reads s a s' → s' = s)
    (hg : ∀ a, (g a).TakesUnless vacant') :
  (p >>= g).TakesUnless vacant'
  := by
  intro s b s' hreads
  obtain ⟨a, m, hp', hg'⟩ := reads_bind.mp hreads
  obtain rfl := hp s a m hp'
  apply hg a m b s' hg'

theorem takesUnless_here_bind {g : Position → Production β}
    (hg : ∀ start, (g start).TakesUnless vacant') :
  (here >>= g).TakesUnless vacant'
  := takesUnless_bind (fun _ _ _ hreads => (reads_here.mp hreads).2) hg

theorem takesUnless_peek_bind {g : Token → Production β} (hg : ∀ t, (g t).TakesUnless vacant') :
  (peek >>= g).TakesUnless vacant'
  := takesUnless_bind (fun _ _ _ hreads => (reads_peek.mp hreads).2) hg

theorem takesUnless_nextIs_bind {g : Bool → Production β} (hg : ∀ b, (g b).TakesUnless vacant') :
  (nextIs k >>= g).TakesUnless vacant'
  := takesUnless_bind (fun _ _ _ hreads => (reads_nextIs.mp hreads).2) hg

/-- Behind a token that has been taken nothing vacant is read. -/
theorem takesUnless_accept_bind (hk : k ≠ .eof) {g : Bool → Production β}
    (htrue : (g true).Avoids vacant') (hfalse : (g false).TakesUnless vacant') :
  (accept k >>= g).TakesUnless vacant'
  := by
  intro s b s' hreads
  rcases (reads_accept_bind hk).mp hreads with ⟨t, m, -, htakes, hg⟩ | ⟨t, -, -, hg⟩
  · exact iff_of_false (htrue m b s' hg) (Nat.not_le.mpr (hg.length_lt_of_takes htakes))
  · apply hfalse s b s' hg

theorem takesUnless_afterToken? (hk : k ≠ .eof) (p : Production α) :
  TakesUnless (· = none) (afterToken? k p)
  := by
  apply takesUnless_accept_bind hk
  · apply avoids_map (by simp)
  · apply takesUnless_none

/-- Whatever is made of what has been read, a token has been taken. -/
theorem Consumes.map (h : p.Consumes) (f : α → β) :
  (f <$> p).Consumes
  := h.bind fun a => pure (f a)

theorem consumes_expected (wanted : String) :
  (expected (α := α) wanted).Consumes
  := fun _ _ _ hreads => absurd hreads reads_expected

theorem consumes_commaList (h : p.Consumes) (n : Nat) :
  (commaList n p).Consumes
  := h.bind _

end Production

namespace Grammar

open Production

/-! ### Names and constants -/

theorem identList_consumes (n : Nat) :
  (identList n).Consumes
  := (expect_consumes (by simp)).bind _

theorem columns_takesUnless (n : Nat) :
  (columns n).TakesUnless (· = [])
  := by
  have hlist : (identList n).Avoids (· = []) := by
    apply avoids_bind
    intro opening s names s' hreads
    obtain ⟨found, m, hfound, hrest⟩ := reads_bind.mp hreads
    simp only [reads_bind, reads_pure] at hrest
    obtain ⟨_, _, -, rfl, -⟩ := hrest
    apply avoids_commaList n ident s names m hfound
  apply takesUnless_nextIs_bind
  intro b
  apply takesUnless_ite ((identList_consumes n).takesUnless hlist) takesUnless_nil

theorem label?_takesUnless :
  label?.TakesUnless (· = none)
  := by
  apply takesUnless_accept_bind (by simp)
  · apply avoids_map (by simp)
  · apply takesUnless_peek_bind
    intro t
    apply takesUnless_ite _ takesUnless_none
    apply (ident_consumes.map _).takesUnless
    apply avoids_map (by simp)

theorem intervalFields_consumes (n : Nat) :
  (intervalFields n).Consumes
  := intervalField_consumes.bind _

theorem literal_consumes (n : Nat) :
  (literal n).Consumes
  := Obeys.consumes (literal_obeys n) fun _ _ h => h.1

theorem constant_consumes (n : Nat) :
  (constant n).Consumes
  := by
  apply consumes_bind
  intro start
  apply (literal_consumes n).bind

theorem textConstant_consumes (n : Nat) :
  (textConstant n).Consumes
  := by
  apply consumes_bind
  intro b
  apply consumes_ite (constant_consumes n) (consumes_expected _)

theorem typeParameter_consumes :
  typeParameter.Consumes
  := (expect_consumes (by simp)).bind _

/-! ### Expressions -/

section

variable {inner : Inner} (hin : inner.Tidy)

include hin

theorem expressionsToParen_consumes :
  (expressionsToParen inner).Consumes
  := (consumes_commaList hin.expression_consumes _).bind _

omit hin in
theorem nameForm_consumes (inner : Inner) :
  (nameForm inner).Consumes
  := (qualifiedName_consumes _).bind _

theorem parenForm_consumes :
  (parenForm inner).Consumes
  := by
  apply consumes_bind
  intro t
  apply consumes_ite
  · apply consumes_bind
    intro _
    apply (queryToParen_consumes inner).map
  · apply consumes_bind
    intro _
    apply hin.expression_consumes.bind

theorem caseOperand?_takesUnless :
  (caseOperand? inner).TakesUnless (· = none)
  := by
  apply takesUnless_nextIs_bind
  intro b
  apply takesUnless_ite takesUnless_none
  apply (hin.expression_consumes.map _).takesUnless
  apply avoids_map (by simp)

omit hin in
theorem caseForm_consumes (inner : Inner) :
  (caseForm inner).Consumes
  := (expect_consumes (by simp)).bind _

omit hin in
theorem castForm_consumes (inner : Inner) (type : Production DataType) :
  (castForm inner type).Consumes
  := (expect_consumes (by simp)).bind _

omit hin in
theorem dataType_consumes (inner : Inner) :
  (dataType inner).Consumes
  := ident_consumes.bind _

theorem primaryExpression_consumes :
  (primaryExpression inner).Consumes
  := by
  obtain ⟨G, -, hobeys⟩ := hin.obeys
  exact Obeys.consumes (primaryExpression_obeys hobeys) fun _ _ => Rules.SignedRule.ne_nil

theorem signed_consumes :
  (signed inner).Consumes
  := by
  obtain ⟨G, -, hobeys⟩ := hin.obeys
  exact Obeys.consumes (signed_obeys hobeys) fun _ _ => Rules.SignedRule.ne_nil

/-- Operands with operators of several levels between them, the levels that bind tightest first. -/
theorem levels_consumes (levels : List Nat) :
  (levels.foldl (fun operand level => atLevel inner.bound level operand) (signed inner)).Consumes
  := by
  have hfold : ∀ operand : Production Expression, operand.Consumes →
      (levels.foldl (fun operand level => atLevel inner.bound level operand) operand).Consumes := by
    induction levels with
    | nil => exact fun _ => id
    | cons level levels ih => exact fun operand h => ih _ (h.bind _)
  apply hfold _ (signed_consumes hin)

/-- A predicate begins with a word of its own. -/
theorem predicateForm?_takesUnless (subject : Expression) (negated : Bool) :
  (predicateForm? inner subject negated).TakesUnless (· = none)
  := by
  apply takesUnless_peek_bind
  intro t
  split
  · apply Consumes.takesUnless
    · apply consumes_bind
      intro _
      apply (comparison_consumes hin).bind
    · apply avoids_bind
      intro _
      apply avoids_bind
      intro low
      apply avoids_bind
      intro _
      apply avoids_map (by simp)
  · apply Consumes.takesUnless
    · apply consumes_bind
      intro _
      apply (expect_consumes (by simp)).bind
    · apply avoids_bind
      intro _
      apply avoids_bind
      intro _
      apply avoids_bind
      intro u
      apply avoids_ite
      · apply avoids_map (by simp)
      · apply avoids_map (by simp)
  · apply Consumes.takesUnless
    · apply consumes_bind
      intro _
      apply (comparison_consumes hin).map
    · apply avoids_bind
      intro _
      apply avoids_map (by simp)
  · apply Consumes.takesUnless
    · apply consumes_bind
      intro _
      apply (comparison_consumes hin).map
    · apply avoids_bind
      intro _
      apply avoids_map (by simp)
  · apply Consumes.takesUnless
    · apply consumes_bind
      intro _
      apply consumes_bind
      intro negated
      apply (expect_consumes (by simp)).bind
    · apply avoids_bind
      intro _
      apply avoids_bind
      intro negated
      apply avoids_bind
      intro _
      apply avoids_pure (by simp)
  · apply takesUnless_none

theorem negation_consumes :
  (negation inner).Consumes
  := by
  obtain ⟨G, -, hobeys⟩ := hin.obeys
  exact Obeys.consumes (negation_obeys hobeys) fun _ _ => Rules.NegationRule.ne_nil

theorem conjunction_consumes :
  (atLevel inner.bound 2 (negation inner)).Consumes
  := (negation_consumes hin).bind _

theorem expression_consumes :
  (expression inner).Consumes
  := (conjunction_consumes hin).bind _

/-! ### Relations and selections -/

theorem primary_consumes :
  (primary inner).Consumes
  := by
  obtain ⟨G, hG, hobeys⟩ := hin.obeys
  refine Obeys.consumes (primary_obeys hobeys hG) ?_
  rintro p u ⟨n, hrule⟩
  apply hrule.ne_nil

omit hin in
theorem criterion?_takesUnless (inner : Inner) (natural : Bool) :
  (criterion? inner natural).TakesUnless (· = none)
  := by
  apply takesUnless_ite takesUnless_none
  apply takesUnless_accept_bind (by simp)
  · apply avoids_map (by simp)
  · apply takesUnless_accept_bind (by simp)
    · apply avoids_map (by simp)
    · apply takesUnless_none

omit hin in
/-- Where no join follows, not even `NATURAL` is taken. -/
theorem joinWith?_takesUnless (inner : Inner) (primary : Production Primary) :
  (joinWith? inner primary).TakesUnless (· = none)
  := by
  apply takesUnless_here_bind
  intro start s o s' hreads
  obtain ⟨natural, m, hnatural, hrest⟩ := reads_bind.mp hreads
  obtain ⟨kind?, n, hkind, hjoin⟩ := reads_bind.mp hrest
  obtain ⟨used, hused, -, hnone⟩ := joinKind?_obeys natural hkind
  cases kind? with
  | none =>
      obtain ⟨rfl, rfl⟩ := hnone rfl
      obtain rfl := Tape.takes_nil.mp hused
      obtain ⟨rfl, rfl⟩ := reads_pure.mp hjoin
      rcases (reads_accept (by simp)).mp hnatural with ⟨h, -⟩ | ⟨-, rfl, -⟩
      · contradiction
      · exact iff_of_true rfl (Nat.le_refl _)
  | some kind =>
      have hless := (expect_consumes (by simp)).bind _ _ _ _ hjoin
      have hlength := hnatural.length_le
      have hlength' := hkind.length_le
      simp only [reads_bind, reads_pure] at hjoin
      obtain ⟨_, _, -, _, _, -, _, _, -, _, _, -, rfl, -⟩ := hjoin
      exact iff_of_false (by simp) (by omega)

theorem relation_consumes :
  (relation inner).Consumes
  := by
  apply consumes_bind
  intro start
  apply relationWith_consumes hin

theorem selectItem_consumes :
  (selectItem inner).Consumes
  := by
  apply consumes_bind
  intro start
  apply hin.expression_consumes.bind

theorem groupingSet_consumes :
  (groupingSet inner).Consumes
  := by
  obtain ⟨G, hG, hobeys⟩ := hin.obeys
  refine Obeys.consumes (groupingSet_obeys hobeys) ?_
  intro items u hrule
  cases hrule with
  | empty => simp
  | row isRow => apply hG.expression isRow
  | nested isNested => apply hG.expression isNested
  | single isSingle => apply hG.expression isSingle

omit hin in
theorem groupingKind_takesUnless (inner : Inner) :
  (groupingKind inner).TakesUnless (· = .plain)
  := by
  apply takesUnless_accept_bind (by simp)
  · apply avoids_bind
    intro rollup
    apply avoids_ite (avoids_pure (by simp))
    apply avoids_bind
    intro cube
    apply avoids_ite (avoids_pure (by simp)) (avoids_expected _)
  · apply takesUnless_accept_bind (by simp)
    · apply avoids_bind
      intro _
      apply avoids_bind
      intro _
      apply avoids_bind
      intro sets
      apply avoids_bind
      intro _
      apply avoids_pure (by simp)
    · exact takesUnless_pure (by rfl)

omit hin in
theorem groupBy?_takesUnless (inner : Inner) :
  (groupBy? inner).TakesUnless (· = none)
  := by
  apply takesUnless_here_bind
  intro start
  apply takesUnless_afterToken? (by simp)

omit hin in
theorem relations_takesUnless (inner : Inner) :
  (relations inner).TakesUnless (· = [])
  := by
  apply takesUnless_accept_bind (by simp)
  · apply avoids_commaList
  · apply takesUnless_nil

omit hin in
theorem select_consumes (inner : Inner) :
  (select inner).Consumes
  := by
  apply consumes_bind
  intro start
  apply (expect_consumes (by simp)).bind

/-! ### Queries -/

omit hin in
theorem quantifier?_takesUnless :
  quantifier?.TakesUnless (· = none)
  := by
  apply takesUnless_accept_bind (by simp)
  · apply avoids_pure (by simp)
  · apply takesUnless_accept_bind (by simp)
    · apply avoids_pure (by simp)
    · apply takesUnless_none

omit hin in
theorem ascending?_takesUnless :
  ascending?.TakesUnless (· = none)
  := by
  apply takesUnless_accept_bind (by simp)
  · apply avoids_pure (by simp)
  · apply takesUnless_accept_bind (by simp)
    · apply avoids_pure (by simp)
    · apply takesUnless_none

theorem sortItem_consumes :
  (sortItem inner).Consumes
  := by
  apply consumes_bind
  intro start
  apply hin.expression_consumes.bind

omit hin in
theorem namedQuery_consumes (inner : Inner) :
  (namedQuery inner).Consumes
  := by
  apply consumes_bind
  intro start
  apply ident_consumes.bind

omit hin in
theorem namedQueries_takesUnless (inner : Inner) :
  (namedQueries inner).TakesUnless (· = [])
  := by
  apply takesUnless_accept_bind (by simp)
  · apply avoids_commaList
  · apply takesUnless_nil

omit hin in
theorem order_takesUnless (inner : Inner) :
  (order inner).TakesUnless (· = [])
  := by
  apply takesUnless_accept_bind (by simp)
  · apply avoids_bind
    intro _
    apply avoids_commaList
  · apply takesUnless_nil

theorem query_consumes :
  (query inner).Consumes
  := by
  apply consumes_bind
  intro start
  apply consumes_bind
  intro named
  apply (body_consumes hin).bind

/-! ### Merges -/

omit hin in
theorem assignment_consumes (inner : Inner) :
  (assignment inner).Consumes
  := by
  apply consumes_bind
  intro start
  apply (qualifiedName_consumes _).bind

omit hin in
theorem changeAction_consumes (inner : Inner) (fromSource : Bool) :
  (changeAction inner fromSource).Consumes
  := by
  apply consumes_accept_bind (by simp)
  apply consumes_bind
  intro b
  apply consumes_ite _ (consumes_expected _)
  apply consumes_bind
  intro _
  apply (expect_consumes (by simp)).bind

omit hin in
theorem insertAction_consumes (inner : Inner) :
  (insertAction inner).Consumes
  := (expect_consumes (by simp)).bind _

omit hin in
theorem mergeSource_consumes (inner : Inner) :
  (mergeSource inner).Consumes
  := by
  apply consumes_accept_bind (by simp)
  apply (qualifiedName_consumes _).map

theorem clauses_consumes :
  (clauses inner).Consumes
  := by
  obtain ⟨G, -, hobeys⟩ := hin.obeys
  refine Obeys.consumes (clauses_obeys hobeys) ?_
  rintro cs u ⟨hrule, hne⟩
  cases hrule with
  | nil => contradiction
  | cons first others =>
      cases first
      simp

omit hin in
theorem merge_consumes (inner : Inner) :
  (merge inner).Consumes
  := by
  apply consumes_bind
  intro start
  apply (expect_consumes (by simp)).bind

/-! ### Loads and exports -/

omit hin in
theorem partitionEntry_consumes (n : Nat) :
  (partitionEntry n).Consumes
  := by
  apply consumes_bind
  intro start
  apply ident_consumes.bind

omit hin in
theorem partition?_takesUnless (n : Nat) :
  (partition? n).TakesUnless (· = none)
  := by
  apply takesUnless_here_bind
  intro start
  apply takesUnless_afterToken? (by simp)

omit hin in
theorem optionEntry_consumes (n : Nat) :
  (optionEntry n).Consumes
  := by
  apply consumes_bind
  intro start
  apply (optionKey_consumes n).bind

omit hin in
theorem load_consumes (n : Nat) :
  (load n).Consumes
  := by
  apply consumes_bind
  intro start
  apply (expect_consumes (by simp)).bind

omit hin in
theorem exportRows_consumes (inner : Inner) :
  (exportRows inner).Consumes
  := by
  apply consumes_bind
  intro start
  apply (expect_consumes (by simp)).bind

/-! ### Statements -/

omit hin in
/-- In front of a semicolon and at the end, no token is taken verbatim. -/
theorem verbatim_takesUnless (n : Nat) :
  (verbatim n).TakesUnless (·.tokens = [])
  := by
  intro s v s' hreads
  simp only [verbatim, reads_bind, reads_peek, reads_spanFrom, reads_pure] at hreads
  obtain ⟨t, m, ⟨-, rfl⟩, tokens, n, htokens, _, _, ⟨rfl, rfl⟩, rfl, rfl⟩ := hreads
  obtain ⟨used, hused, rfl, -⟩ := balanced_obeys htokens
  rw [hused.tokens_eq, List.length_append]
  change tokens = [] ↔ tokens.length + s'.tokens.length ≤ s'.tokens.length
  rw [← List.length_eq_zero_iff]
  omega

omit hin in
theorem Rules.StatementRule.ne_nil {G : Rules} (hG : G.Nonempty) {a : Statement} {u : List Token}
    (h : G.StatementRule a u) :
  u ≠ []
  := by
  cases h with
  | merge isMerge =>
      cases isMerge
      simp
  | load isLoad =>
      cases isLoad
      simp
  | exportRows isExport =>
      cases isExport
      simp
  | query isQuery => apply hG.query isQuery
  | verbatim isVerbatim =>
      cases isVerbatim
      simp

theorem statement_consumes :
  (statement inner).Consumes
  := by
  obtain ⟨G, hG, hobeys⟩ := hin.obeys
  exact Obeys.consumes (statement_obeys hobeys) fun _ _ => Rules.StatementRule.ne_nil hG

omit hin in
/-- Each statement of a script has a token of its own. -/
theorem Rules.ScriptRule.length_le {G : Rules} (hG : G.Nonempty) {nodes : List Node}
    {u : List Token} (h : G.ScriptRule nodes u) :
  nodes.length ≤ u.length
  := by
  induction h with
  | nil => exact Nat.le_refl _
  | skip separator others ih =>
      rw [List.length_cons]
      omega
  | last only =>
      have hlength := List.length_pos_of_ne_nil (only.ne_nil hG)
      rw [List.length_singleton]
      omega
  | more first separator others ih =>
      have hlength := List.length_pos_of_ne_nil (first.ne_nil hG)
      rw [List.length_append, List.length_cons, List.length_cons]
      omega

end

end Grammar

end SqlFront
