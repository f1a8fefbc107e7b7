import SqlFront.Proofs.Grammar.ExpressionObeys

/-!
# The productions for queries obey their rules

Each production for relations, selections and queries obeys its rule, provided that the productions
one level further in do.  By induction on the levels, the productions that may be nested so many
levels deep obey the rules of those levels.
-/

namespace SqlFront.Grammar

open Production

/-! ### Nothing is read from no tokens -/

section

variable {G : Rules} {u : List Token}

theorem Rules.PrimaryWith.ne_nil {relation : Relation → List Token → Prop} {p : Primary}
    (h : G.PrimaryWith relation p u) :
  u ≠ []
  := by
  cases h with
  | table isName => simp [isName.ne_nil]
  | subquery inside => simp [inside.ne_nil]
  | nested => simp

theorem Rules.PrimaryUpTo.ne_nil {n : Nat} {p : Primary} (h : G.PrimaryUpTo n p u) :
  u ≠ []
  := by
  cases n with
  | zero => exact h.elim
  | succ n => apply PrimaryWith.ne_nil h

theorem Rules.RelationWith.ne_nil {primary : Primary → List Token → Prop} {r : Relation}
    (hG : G.Nonempty) (h : G.RelationWith primary r u) :
  u ≠ []
  := by
  cases h with
  | intro isFirst areJoins => simp [hG.primary isFirst]

theorem Rules.SelectItemRule.ne_nil {item : SelectItem} (hG : G.Nonempty)
    (h : G.SelectItemRule item u) :
  u ≠ []
  := by
  cases h with
  | intro isValue isLabel => simp [hG.expression isValue]

theorem Rules.SimpleBodyRule.ne_nil {b : Body} (h : G.SimpleBodyRule b u) :
  u ≠ []
  := by
  cases h with
  | select isSelect =>
      cases isSelect
      simp
  | table isTable => apply isTable.ne_nil
  | values areValues => apply areValues.ne_nil
  | nested inside => apply inside.ne_nil

theorem Rules.CombinedRule.ne_nil {op? : Kind → Option SetOp} {operand : Body → List Token → Prop}
    {b : Body} (hoperand : ∀ b u, operand b u → u ≠ []) (h : CombinedRule op? operand b u) :
  u ≠ []
  := by
  cases h with
  | one only => apply hoperand _ _ only
  | more => simp

theorem Rules.BodyRule.ne_nil {b : Body} (h : G.BodyRule b u) :
  u ≠ []
  := by
  apply CombinedRule.ne_nil _ h
  intro b u h
  apply h.ne_nil fun _ _ => SimpleBodyRule.ne_nil

theorem Rules.SortItemRule.ne_nil {item : SortItem} (hG : G.Nonempty) (h : G.SortItemRule item u) :
  u ≠ []
  := by
  cases h with
  | intro isKey words => simp [hG.expression isKey]

theorem Rules.NamedQueryRule.ne_nil {q : NamedQuery} (h : G.NamedQueryRule q u) :
  u ≠ []
  := by
  cases h with
  | intro isName => simp [isName.ne_nil]

theorem Rules.QueryRule.ne_nil {q : Query} (h : G.QueryRule q u) :
  u ≠ []
  := by
  cases h with
  | intro areNamed isBody => simp [isBody.ne_nil]

end

/-! ### Relations -/

theorem quantifier?_obeys :
  quantifier?.Obeys (Possible QuantifierRule)
  := by
  intro s o s' hreads
  rcases (reads_accept_bind (by decide)).mp hreads with ⟨t, m, ht, htakes, h⟩ | ⟨t, -, -, hrest⟩
  · obtain ⟨rfl, rfl⟩ := reads_pure.mp h
    exact ⟨[t], htakes, .some (.distinct ht)⟩
  · rw [if_neg Bool.false_ne_true] at hrest
    rcases (reads_accept_bind (by decide)).mp hrest with ⟨t, m, ht, htakes, h⟩ | ⟨t, -, -, h⟩
    · obtain ⟨rfl, rfl⟩ := reads_pure.mp h
      exact ⟨[t], htakes, .some (.all ht)⟩
    · obtain ⟨rfl, rfl⟩ := reads_pure.mp h
      exact ⟨[], .refl _, .none⟩

/-- The words before `JOIN`, or nothing. -/
theorem joinKind?_obeys (natural : Bool) :
  (joinKind? natural).Obeys fun o used => Plain used ∧ (o = none → natural = false ∧ used = [])
  := by
  intro s o s' hreads
  simp only [joinKind?, reads_bind, reads_peek] at hreads
  obtain ⟨t, m, ⟨ht, rfl⟩, h⟩ := hreads
  have hword : ∀ {k : Kind} {rest : Production (Option JoinKind)}, t.kind = k → k.isPlain →
      (∀ {m₁}, rest.Reads m₁ o s' → ∃ used, m₁.Takes used s' ∧ Plain used ∧ o ≠ none) →
      (do let _ ← advance; rest : Production (Option JoinKind)).Reads m o s' →
      ∃ used, m.Takes used s' ∧ Plain used ∧ (o = none → natural = false ∧ used = []) := by
    intro k rest hk hplain hrest hword
    obtain ⟨_, m₁, hadvance, hword⟩ := reads_bind.mp hword
    obtain ⟨rfl, htakes, hplain⟩ := takes_plain_of_advance ht (by rw [hk]; apply hplain) hadvance
    obtain ⟨used, hused, hplain', hne⟩ := hrest hword
    refine ⟨_, htakes.trans hused, plain_append.mpr ⟨hplain, hplain'⟩, ?_⟩
    intro ho
    contradiction
  have hdone : ∀ {kind : JoinKind} {m₁}, (pure (some kind) : Production (Option JoinKind)).Reads
      m₁ o s' → ∃ used, m₁.Takes used s' ∧ Plain used ∧ o ≠ none := by
    intro kind m₁ hdone
    obtain ⟨rfl, rfl⟩ := reads_pure.mp hdone
    exact ⟨[], .refl _, plain_nil, by simp⟩
  have houter : ∀ {kind : JoinKind} {m₁}, (do
      let _ ← accept (.keyword .OUTER)
      return some kind : Production (Option JoinKind)).Reads m₁ o s' →
      ∃ used, m₁.Takes used s' ∧ Plain used ∧ o ≠ none := by
    intro kind m₁ houter
    obtain ⟨_, m₂, haccept, hdone⟩ := reads_bind.mp houter
    obtain ⟨used, hused, hplain⟩ := accept_obeys (by rfl) haccept
    obtain ⟨rfl, rfl⟩ := reads_pure.mp hdone
    exact ⟨used, hused, hplain, by simp⟩
  split at h
  · obtain ⟨rfl, rfl⟩ := reads_pure.mp h
    exact ⟨[], .refl _, plain_nil, by simp⟩
  · next hkind => apply hword hkind (by rfl) hdone h
  · next hkind => apply hword hkind (by rfl) hdone h
  · next hkind =>
      apply hword hkind (by rfl) _ h
      intro m₁ hrest
      rcases (reads_accept_bind (by decide)).mp hrest with ⟨u, m, hu, htakes, h⟩ | ⟨u, -, -, h⟩
      · obtain ⟨rfl, rfl⟩ := reads_pure.mp h
        refine ⟨[u], htakes, plain_cons.mpr ⟨?_, plain_nil⟩, by simp⟩
        rw [hu]
        rfl
      · rw [if_neg Bool.false_ne_true] at h
        rcases (reads_accept_bind (by decide)).mp h with ⟨u, m, hu, htakes, hend⟩ | ⟨u, -, -, hend⟩
        · obtain ⟨rfl, rfl⟩ := reads_pure.mp hend
          refine ⟨[u], htakes, plain_cons.mpr ⟨?_, plain_nil⟩, by simp⟩
          rw [hu]
          rfl
        · apply houter hend
  · next hkind => apply hword hkind (by rfl) houter h
  · next hkind => apply hword hkind (by rfl) houter h
  · next hkind => apply hword hkind (by rfl) hdone h
  · next hkind => apply hword hkind (by rfl) hdone h
  · split at h
    · simp at h
    · next hnatural =>
        obtain ⟨rfl, rfl⟩ := reads_pure.mp h
        exact ⟨[], .refl _, plain_nil, fun _ => ⟨by simpa using hnatural, rfl⟩⟩

section

variable {inner : Inner} {G : Rules} (hin : inner.Obeys G) (hG : G.Nonempty)

include hin

theorem criterion?_obeys (natural : Bool) :
  (criterion? inner natural).Obeys (Possible G.CriterionRule)
  := by
  intro s o s' hreads
  unfold criterion? at hreads
  split at hreads
  · obtain ⟨rfl, rfl⟩ := reads_pure.mp hreads
    exact ⟨[], .refl _, .none⟩
  rcases (reads_accept_bind (by decide)).mp hreads with ⟨t, m, ht, htakes, h⟩ | ⟨t, -, -, hrest⟩
  · simp only [if_true, reads_bind, reads_pure] at h
    obtain ⟨e, m₁, he, rfl, rfl⟩ := h
    obtain ⟨used, hused, hrule⟩ := hin.expression he
    exact ⟨_, htakes.trans hused, .some (.condition (.intro ht hrule))⟩
  · rw [if_neg Bool.false_ne_true] at hrest
    rcases (reads_accept_bind (by decide)).mp hrest with ⟨t, m, ht, htakes, h⟩ | ⟨t, -, -, h⟩
    · simp only [if_true, reads_bind, reads_pure] at h
      obtain ⟨names, m₁, hnames, rfl, rfl⟩ := h
      obtain ⟨used, hused, hrule⟩ := identList_obeys inner.bound hnames
      exact ⟨_, htakes.trans hused, .some (.columns (.intro ht hrule))⟩
    · obtain ⟨rfl, rfl⟩ := reads_pure.mp h
      exact ⟨[], .refl _, .none⟩

theorem primaryWith_obeys {relation : Position → Production Relation}
    {R : Relation → List Token → Prop} (hne : ∀ {r u}, R r u → u ≠ [])
    (hrelation : ∀ {s s' : Tape} {t : Token} {r : Relation}, s.peek 0 = .ok t →
      (relation t.span.start).Reads s r s' → ∃ used, s.Takes used s' ∧ R r used) :
  (primaryWith inner relation).Obeys (G.PrimaryWith R)
  := by
  intro s p s' hreads
  simp only [primaryWith, reads_bind, reads_here] at hreads
  obtain ⟨_, m, ⟨⟨first, hfirst, rfl⟩, rfl⟩, isParen, m₁, hparen, h⟩ := hreads
  obtain ⟨⟨t, ht, rfl⟩, rfl⟩ := reads_nextIs.mp hparen
  split at h
  · next hkind =>
      have hkind : t.kind = .leftParen := by simpa using hkind
      simp only [reads_bind, reads_peekAt] at h
      obtain ⟨next, m₁, ⟨hnext, rfl⟩, h⟩ := h
      split at h
      · simp only [reads_bind, reads_spanFrom, reads_pure] at h
        obtain ⟨_, m₂, hadvance, q, m₃, hq, label, m₄, hlabel, _, m₅, ⟨rfl, rfl⟩, rfl, rfl⟩ := h
        obtain ⟨rfl, htakes⟩ := takes_of_advance ht (by simp [hkind]) hadvance
        obtain ⟨u, hu, hclosed⟩ := queryToParen_obeys hin hq
        obtain ⟨v, hv, hpossible⟩ := label?_obeys hlabel
        have htakes' := (htakes.trans hu).trans hv
        refine ⟨_, htakes', ?_⟩
        rw [htakes'.region (by simp) hfirst]
        apply Rules.PrimaryWith.subquery (.intro hkind hclosed) hpossible
      · next hquery =>
          simp only [reads_bind, reads_here, reads_pure] at h
          obtain ⟨_, m₂, hadvance, _, m₃, ⟨⟨v, hv, rfl⟩, rfl⟩, r, m₄, hr, closing, m₅, hclosing,
            rfl, rfl⟩ := h
          obtain ⟨rfl, htakes⟩ := takes_of_advance ht (by simp [hkind]) hadvance
          obtain ⟨u, hu, hrule⟩ := hrelation hv hr
          obtain ⟨hcloses, htakes'⟩ := (reads_expect (by decide)).mp hclosing
          refine ⟨_, htakes.trans (hu.trans htakes'), .nested hkind (.intro hrule hcloses) ?_⟩
          obtain ⟨w, ws, rfl⟩ := List.exists_cons_of_ne_nil (hne hrule)
          -- the token behind the parenthesis has been looked at
          rw [Lookahead.distance, ← Nat.add_zero 1, ← List.length_singleton, htakes.peek_add,
            hu.peek_zero, Except.ok.injEq] at hnext
          simpa [hnext] using hquery
  · simp only [reads_bind, reads_spanFrom, reads_pure] at h
    obtain ⟨name, m₂, hname, label, m₃, hlabel, _, m₄, ⟨rfl, rfl⟩, rfl, rfl⟩ := h
    obtain ⟨u, hu, hrule⟩ := qualifiedName_obeys inner.bound hname
    obtain ⟨v, hv, hpossible⟩ := label?_obeys hlabel
    have htakes := hu.trans hv
    refine ⟨_, htakes, ?_⟩
    rw [htakes.region (by simp [hrule.ne_nil]) hfirst]
    apply Rules.PrimaryWith.table hrule hpossible

theorem joinWith?_obeys {primary : Production Primary} {R : Primary → List Token → Prop}
    (hprimary : primary.Obeys R) :
  (joinWith? inner primary).Obeys (Possible (G.JoinWith R))
  := by
  intro s o s' hreads
  simp only [joinWith?, reads_bind, reads_here] at hreads
  obtain ⟨_, m, ⟨⟨first, hfirst, rfl⟩, rfl⟩, natural, m₁, hnatural, kind?, m₂, hkind, h⟩ := hreads
  obtain ⟨a, ha, hplain⟩ := accept_obeys (by rfl) hnatural
  obtain ⟨b, hb, hplain', hnone⟩ := joinKind?_obeys natural hkind
  cases kind? with
  | none =>
      obtain ⟨rfl, rfl⟩ := reads_pure.mp h
      obtain ⟨rfl, rfl⟩ := hnone rfl
      obtain rfl := Tape.takes_nil.mp hb
      rcases (reads_accept (by decide)).mp hnatural with ⟨⟨⟩, -⟩ | ⟨-, rfl, -⟩
      exact ⟨[], .refl _, .none⟩
  | some kind =>
      simp only [reads_bind, reads_spanFrom, reads_pure] at h
      obtain ⟨t, m₃, hjoin, right, m₄, hright, criterion, m₅, hcriterion, _, m₆, ⟨rfl, rfl⟩,
        rfl, rfl⟩ := h
      obtain ⟨hword, htakes⟩ := (reads_expect (by decide)).mp hjoin
      obtain ⟨v, hv, hrule⟩ := hprimary hright
      obtain ⟨w, hw, hpossible⟩ := criterion?_obeys hin natural hcriterion
      have htakes' := ((ha.trans hb).trans (htakes.trans hv)).trans hw
      refine ⟨_, htakes', .some ?_⟩
      rw [htakes'.region (by simp) hfirst]
      apply Rules.JoinWith.intro (plain_append.mpr ⟨hplain, hplain'⟩) hword hrule hpossible

include hG

theorem relationWith_obeys {primary : Production Primary} {R : Primary → List Token → Prop}
    (hprimary : primary.Obeys R) {s s' : Tape} {t : Token} {r : Relation} (ht : s.peek 0 = .ok t)
    (h : (relationWith inner primary t.span.start).Reads s r s') :
  ∃ used, s.Takes used s' ∧ G.RelationWith R r used
  := by
  simp only [relationWith, reads_bind, reads_spanFrom, reads_pure] at h
  obtain ⟨first, m, hfirst, joins, m₁, hjoins, _, m₂, ⟨rfl, rfl⟩, rfl, rfl⟩ := h
  obtain ⟨u, hu, hrule⟩ := hin.primary hfirst
  obtain ⟨v, hv, hrepeated⟩ := collect_obeys inner.bound (joinWith?_obeys hin hprimary) hjoins
  have htakes := hu.trans hv
  refine ⟨_, htakes, ?_⟩
  rw [htakes.region (by simp [hG.primary hrule]) ht]
  apply Rules.RelationWith.intro hrule hrepeated

theorem primaryUpTo_obeys (n : Nat) :
  (primaryUpTo inner n).Obeys (G.PrimaryUpTo n)
  := by
  induction n with
  | zero =>
      intro s p s' h
      simp [primaryUpTo] at h
  | succ n ih =>
      apply primaryWith_obeys hin
      · intro r u hrule
        apply hrule.ne_nil hG
      · intro s s' t r ht h
        apply relationWith_obeys hin hG ih ht h

theorem primary_obeys :
  (primary inner).Obeys G.PrimaryRule
  := by
  intro s p s' h
  obtain ⟨used, hused, hrule⟩ := primaryUpTo_obeys hin hG inner.bound h
  exact ⟨used, hused, inner.bound, hrule⟩

theorem relation_obeys :
  (relation inner).Obeys G.RelationRule
  := by
  intro s r s' hreads
  simp only [relation, reads_bind, reads_here] at hreads
  obtain ⟨_, m, ⟨⟨t, ht, rfl⟩, rfl⟩, h⟩ := hreads
  obtain ⟨used, hused, hrule⟩ :=
    relationWith_obeys hin hG (primaryUpTo_obeys hin hG inner.bound) ht h
  exact ⟨used, hused, inner.bound, hrule⟩

/-! ### Selections -/

theorem selectItem_obeys :
  (selectItem inner).Obeys G.SelectItemRule
  := by
  intro s item s' h
  simp only [selectItem, reads_bind, reads_here, reads_spanFrom, reads_pure] at h
  obtain ⟨_, m, ⟨⟨t, ht, rfl⟩, rfl⟩, value, m₁, hvalue, label, m₂, hlabel, _, m₃, ⟨rfl, rfl⟩,
    rfl, rfl⟩ := h
  obtain ⟨u, hu, hrule⟩ := hin.expression hvalue
  obtain ⟨v, hv, hpossible⟩ := label?_obeys hlabel
  have htakes := hu.trans hv
  refine ⟨_, htakes, ?_⟩
  rw [htakes.region (by simp [hG.expression hrule]) ht]
  apply Rules.SelectItemRule.intro hrule hpossible

omit hG

theorem groupingSet_obeys :
  (groupingSet inner).Obeys G.GroupingSetRule
  := by
  intro s es s' hreads
  obtain ⟨isEmpty, m, hempty, h⟩ := reads_bind.mp hreads
  obtain ⟨rfl, t, ht, hempty⟩ := reads_nextAre.mp hempty
  cases isEmpty with
  | true =>
      split at hempty
      · next hopens =>
          obtain ⟨closing, hpeek, hkind⟩ := hempty
          have hkind : closing.kind = .rightParen := by simpa using hkind
          simp only [if_true, reads_bind, reads_pure] at h
          obtain ⟨_, r, hadvance, _, r', hadvance', rfl, rfl⟩ := h
          obtain ⟨rfl, htakes⟩ := takes_of_advance ht (by simp [hopens]) hadvance
          rw [← Nat.add_zero 1, ← List.length_singleton, htakes.peek_add] at hpeek
          obtain ⟨rfl, htakes'⟩ := takes_of_advance hpeek (by simp [hkind]) hadvance'
          exact ⟨_, htakes.trans htakes', .empty hopens hkind⟩
      · contradiction
  | false =>
      simp only [Bool.false_eq_true, if_false, reads_bind] at h
      obtain ⟨⟨form, region⟩, m', he, h⟩ := h
      obtain ⟨u, hu, hrule⟩ := hin.expression he
      use u
      split at h
      · next hform =>
          obtain ⟨rfl, rfl⟩ := reads_pure.mp h
          simp only at hform
          subst hform
          exact ⟨hu, .row hrule⟩
      · next hform =>
          obtain ⟨rfl, rfl⟩ := reads_pure.mp h
          simp only at hform
          subst hform
          exact ⟨hu, .nested hrule⟩
      · obtain ⟨rfl, rfl⟩ := reads_pure.mp h
        exact ⟨hu, .single hrule⟩

theorem groupingKind_obeys :
  (groupingKind inner).Obeys G.GroupingRule
  := by
  intro s grouping s' hreads
  rcases (reads_accept_bind (by decide)).mp hreads with ⟨t, m, ht, htakes, h⟩ | ⟨t, -, -, hrest⟩
  · rw [if_pos rfl] at h
    rcases (reads_accept_bind (by decide)).mp h with ⟨u, m₁, hu, htakes', h⟩ | ⟨u, -, -, hrest⟩
    · obtain ⟨rfl, rfl⟩ := reads_pure.mp h
      refine ⟨_, htakes.trans htakes', .rollup ?_⟩
      simp [Plain, ht, hu, Kind.isPlain]
    · rw [if_neg Bool.false_ne_true] at hrest
      rcases (reads_accept_bind (by decide)).mp hrest with ⟨u, m₁, hu, htakes', h⟩ | ⟨u, -, -, h⟩
      · obtain ⟨rfl, rfl⟩ := reads_pure.mp h
        refine ⟨_, htakes.trans htakes', .cube ?_⟩
        simp [Plain, ht, hu, Kind.isPlain]
      · simp at h
  · rw [if_neg Bool.false_ne_true] at hrest
    rcases (reads_accept_bind (by decide)).mp hrest with ⟨t, m, ht, htakes, h⟩ | ⟨t, -, -, h⟩
    · simp only [if_true, reads_bind] at h
      obtain ⟨u, m₁, hsets, h⟩ := h
      obtain ⟨hkind, htakes'⟩ := (reads_expect (by decide)).mp hsets
      obtain ⟨opening, m₂, hopening, sets, m₃, hlist, closing, m₄, hclosing, h⟩ := h
      obtain ⟨rfl, rfl⟩ := reads_pure.mp h
      obtain ⟨hopens, htakes₂⟩ := (reads_expect (by decide)).mp hopening
      obtain ⟨v, hv, hrule⟩ := commaList_obeys inner.bound (groupingSet_obeys hin) hlist
      obtain ⟨hcloses, htakes₃⟩ := (reads_expect (by decide)).mp hclosing
      refine ⟨_, (htakes.trans htakes').trans (htakes₂.trans (hv.trans htakes₃)), ?_⟩
      apply Rules.GroupingRule.sets _ (.intro hopens (.intro hrule hcloses))
      simp [Plain, ht, hkind, Kind.isPlain]
    · obtain ⟨rfl, rfl⟩ := reads_pure.mp h
      exact ⟨[], .refl _, .plain⟩

theorem groupBy?_obeys :
  (groupBy? inner).Obeys (Possible G.GroupByRule)
  := by
  intro s o s' hreads
  simp only [groupBy?, reads_bind, reads_here] at hreads
  obtain ⟨_, m, ⟨⟨first, hfirst, rfl⟩, rfl⟩, hreads⟩ := hreads
  rcases (reads_accept_bind (by decide)).mp hreads with ⟨t, m₁, ht, htakes, h⟩ | ⟨t, -, -, h⟩
  · simp only [if_true, reads_map, reads_bind, reads_spanFrom, reads_pure] at h
    obtain ⟨_, ⟨by', m₂, hby, keys, m₃, hkeys, grouping, m₄, hgrouping, _, m₅, ⟨rfl, rfl⟩,
      rfl, rfl⟩, rfl⟩ := h
    obtain ⟨hword, htakes'⟩ := (reads_expect (by decide)).mp hby
    obtain ⟨u, hu, hrule⟩ := expressions_obeys hin inner.bound hkeys
    obtain ⟨v, hv, hrule'⟩ := groupingKind_obeys hin hgrouping
    have htakes₂ := (htakes.trans (htakes'.trans hu)).trans hv
    refine ⟨_, htakes₂, .some ?_⟩
    rw [htakes₂.region (by simp) hfirst]
    apply Rules.GroupByRule.intro ht (.intro hword hrule) hrule'
  · obtain ⟨rfl, rfl⟩ := reads_pure.mp h
    exact ⟨[], .refl _, .none⟩

include hG

theorem relations_obeys :
  (relations inner).Obeys
    (Listed (After (.keyword .FROM) (Separated .comma G.RelationRule)))
  := listed_obeys (by decide) (commaList_obeys inner.bound (relation_obeys hin hG))

theorem select_obeys :
  (select inner).Obeys G.SelectRule
  := by
  intro s a s' h
  simp only [select, reads_bind, reads_here, reads_spanFrom, reads_pure] at h
  obtain ⟨_, m, ⟨⟨first, hfirst, rfl⟩, rfl⟩, t, m₁, ht, quantifier, m₂, hquantifier, items, m₃,
    hitems, relations, m₄, hrelations, condition, m₅, hcondition, grouping, m₆, hgrouping, having,
    m₇, hhaving, _, m₈, ⟨rfl, rfl⟩, rfl, rfl⟩ := h
  obtain ⟨hopens, htakes⟩ := (reads_expect (by decide)).mp ht
  obtain ⟨q, hq, hquantifier⟩ := quantifier?_obeys hquantifier
  obtain ⟨i, hi, hitems⟩ := commaList_obeys inner.bound (selectItem_obeys hin hG) hitems
  obtain ⟨r, hr, hrelations⟩ := relations_obeys hin hG hrelations
  obtain ⟨c, hc, hcondition⟩ := afterToken?_obeys (by decide) hin.expression hcondition
  obtain ⟨g, hg, hgrouping⟩ := groupBy?_obeys hin hgrouping
  obtain ⟨h, hh, hhaving⟩ := afterToken?_obeys (by decide) hin.expression hhaving
  have htakes' := (((((htakes.trans hq).trans hi).trans hr).trans hc).trans hg).trans hh
  refine ⟨_, htakes', ?_⟩
  rw [htakes'.region (by simp) hfirst]
  apply Rules.SelectRule.intro hopens hquantifier hitems hrelations hcondition hgrouping hhaving

/-! ### Set operators -/

theorem simpleBody_obeys :
  (simpleBody inner).Obeys G.SimpleBodyRule
  := by
  intro s b s' hreads
  simp only [simpleBody, reads_bind, reads_peek] at hreads
  obtain ⟨t, m, ⟨ht, rfl⟩, h⟩ := hreads
  split at h
  · simp only [reads_bind, reads_pure] at h
    obtain ⟨a, m₁, ha, rfl, rfl⟩ := h
    obtain ⟨u, hu, hrule⟩ := select_obeys hin hG ha
    exact ⟨u, hu, .select hrule⟩
  · next hkind =>
      simp only [reads_bind, reads_spanFrom, reads_pure] at h
      obtain ⟨_, m₁, hadvance, name, m₂, hname, _, m₃, ⟨rfl, rfl⟩, rfl, rfl⟩ := h
      obtain ⟨rfl, htakes⟩ := takes_of_advance ht (by simp [hkind]) hadvance
      obtain ⟨u, hu, hrule⟩ := qualifiedName_obeys inner.bound hname
      have htakes' := htakes.trans hu
      refine ⟨_, htakes', ?_⟩
      rw [htakes'.region (by simp) ht]
      apply Rules.SimpleBodyRule.table (.intro hkind hrule)
  · next hkind =>
      simp only [reads_bind, reads_spanFrom, reads_pure] at h
      obtain ⟨_, m₁, hadvance, rows, m₂, hrows, _, m₃, ⟨rfl, rfl⟩, rfl, rfl⟩ := h
      obtain ⟨rfl, htakes⟩ := takes_of_advance ht (by simp [hkind]) hadvance
      obtain ⟨u, hu, hrule⟩ := expressions_obeys hin inner.bound hrows
      have htakes' := htakes.trans hu
      refine ⟨_, htakes', ?_⟩
      rw [htakes'.region (by simp) ht]
      apply Rules.SimpleBodyRule.values (.intro hkind hrule)
  · next hkind =>
      simp only [reads_bind, reads_spanFrom, reads_pure] at h
      obtain ⟨_, m₁, hadvance, q, m₂, hq, _, m₃, ⟨rfl, rfl⟩, rfl, rfl⟩ := h
      obtain ⟨rfl, htakes⟩ := takes_of_advance ht (by simp [hkind]) hadvance
      obtain ⟨u, hu, hclosed⟩ := queryToParen_obeys hin hq
      have htakes' := htakes.trans hu
      refine ⟨_, htakes', ?_⟩
      rw [htakes'.region (by simp) ht]
      apply Rules.SimpleBodyRule.nested (.intro hkind hclosed)
  · simp at h

omit hin hG

theorem combinations_obeys {op? : Kind → Option SetOp} {operand : Production Body}
    {R : Body → List Token → Prop} (h : operand.Obeys R) (heof : op? .eof = none) (n : Nat)
    {s m s' : Tape} {first : Token} (hfirst : s.peek 0 = .ok first) {left b : Body} {u : List Token}
    (hleft : Rules.CombinedRule op? R left u) (htakes : s.Takes u m)
    (hreads : (combinations op? first.span.start operand n left).Reads m b s') :
  ∃ used, s.Takes used s' ∧ Rules.CombinedRule op? R b used
  := by
  induction n generalizing m left u with
  | zero => simp [combinations] at hreads
  | succ n ih =>
      simp only [combinations, reads_bind, reads_peek] at hreads
      obtain ⟨t, r, ⟨ht, rfl⟩, hreads⟩ := hreads
      split at hreads
      · next op hop =>
          simp only [reads_bind, reads_spanFrom] at hreads
          obtain ⟨_, m₁, hadvance, quantifier, m₂, hquantifier, right, m₃, hright, _, m₄, ⟨rfl, rfl⟩,
            hreads⟩ := hreads
          have hkind : t.kind ≠ .eof := by
            intro hkind
            simp [hkind, heof] at hop
          obtain ⟨rfl, htakes'⟩ := takes_of_advance ht hkind hadvance
          obtain ⟨v, hv, hpossible⟩ := quantifier?_obeys hquantifier
          obtain ⟨w, hw, hrule⟩ := h hright
          have htakes₂ := (htakes.trans (htakes'.trans hv)).trans hw
          rw [htakes₂.region (by simp) hfirst] at hreads
          apply ih _ htakes₂ hreads
          apply Rules.CombinedRule.more hleft hop hpossible hrule
      · obtain ⟨rfl, rfl⟩ := reads_pure.mp hreads
        exact ⟨u, htakes, hleft⟩

theorem combined_obeys {op? : Kind → Option SetOp} {operand : Production Body}
    {R : Body → List Token → Prop} (h : operand.Obeys R) (heof : op? .eof = none)
    (bound : Nat) :
  (combined bound op? operand).Obeys (Rules.CombinedRule op? R)
  := by
  intro s b s' hreads
  simp only [combined, reads_bind, reads_here] at hreads
  obtain ⟨_, m, ⟨⟨first, hfirst, rfl⟩, rfl⟩, left, m₁, hleft, hreads⟩ := hreads
  obtain ⟨u, hu, hrule⟩ := h hleft
  apply combinations_obeys h heof bound hfirst (.one hrule) hu hreads

include hin hG

theorem body_obeys :
  (body inner).Obeys G.BodyRule
  := by
  apply combined_obeys _ rfl
  apply combined_obeys (simpleBody_obeys hin hG) rfl

/-! ### Whole queries -/

omit hin hG in
/-- The word for the direction of an order. -/
theorem ascending?_obeys :
  ascending?.Obeys PlainRule
  := by
  intro s o s' hreads
  rcases (reads_accept_bind (by decide)).mp hreads with ⟨t, m, ht, htakes, h⟩ | ⟨t, -, -, hrest⟩
  · obtain ⟨rfl, rfl⟩ := reads_pure.mp h
    exact ⟨[t], htakes, by simp [Plain, ht, Kind.isPlain]⟩
  · rw [if_neg Bool.false_ne_true] at hrest
    rcases (reads_accept_bind (by decide)).mp hrest with ⟨t, m, ht, htakes, h⟩ | ⟨t, -, -, h⟩
    · obtain ⟨rfl, rfl⟩ := reads_pure.mp h
      exact ⟨[t], htakes, by simp [Plain, ht, Kind.isPlain]⟩
    · obtain ⟨rfl, rfl⟩ := reads_pure.mp h
      exact ⟨[], .refl _, plain_nil⟩

omit hin hG in
/-- The words for where nulls stand. -/
theorem nullsFirst?_obeys :
  (afterToken? (.keyword .NULLS) (do
    if ← accept (.keyword .FIRST) then return true
    else if ← accept (.keyword .LAST) then return false
    else expected "'FIRST' or 'LAST'")).Obeys PlainRule
  := by
  intro s o s' hreads
  rcases (reads_accept_bind (by decide)).mp hreads with ⟨t, m, ht, htakes, h⟩ | ⟨t, -, -, h⟩
  · rw [if_pos rfl, reads_map] at h
    obtain ⟨_, h, rfl⟩ := h
    rcases (reads_accept_bind (by decide)).mp h with ⟨u, m₁, hu, htakes', h⟩ | ⟨u, -, -, hrest⟩
    · obtain ⟨rfl, rfl⟩ := reads_pure.mp h
      exact ⟨_, htakes.trans htakes', by simp [Plain, ht, hu, Kind.isPlain]⟩
    · rw [if_neg Bool.false_ne_true] at hrest
      rcases (reads_accept_bind (by decide)).mp hrest with ⟨u, m₁, hu, htakes', h⟩ | ⟨u, -, -, h⟩
      · obtain ⟨rfl, rfl⟩ := reads_pure.mp h
        exact ⟨_, htakes.trans htakes', by simp [Plain, ht, hu, Kind.isPlain]⟩
      · simp at h
  · obtain ⟨rfl, rfl⟩ := reads_pure.mp h
    exact ⟨[], .refl _, plain_nil⟩

theorem sortItem_obeys :
  (sortItem inner).Obeys G.SortItemRule
  := by
  intro s item s' h
  simp only [sortItem, reads_bind, reads_here, reads_spanFrom, reads_pure] at h
  obtain ⟨_, m, ⟨⟨first, hfirst, rfl⟩, rfl⟩, key, m₁, hkey, ascending, m₂, hascending, nullsFirst,
    m₃, hnulls, _, m₄, ⟨rfl, rfl⟩, rfl, rfl⟩ := h
  obtain ⟨u, hu, hrule⟩ := hin.expression hkey
  obtain ⟨v, hv, hplain⟩ := ascending?_obeys hascending
  obtain ⟨w, hw, hplain'⟩ := nullsFirst?_obeys hnulls
  have htakes := hu.trans (hv.trans hw)
  refine ⟨_, htakes, ?_⟩
  rw [htakes.region (by simp [hG.expression hrule]) hfirst]
  apply Rules.SortItemRule.intro hrule (plain_append.mpr ⟨hplain, hplain'⟩)

omit hG in
theorem namedQuery_obeys :
  (namedQuery inner).Obeys G.NamedQueryRule
  := by
  intro s q s' h
  simp only [namedQuery, reads_bind, reads_here, reads_spanFrom, reads_pure] at h
  obtain ⟨_, m, ⟨⟨first, hfirst, rfl⟩, rfl⟩, name, m₁, hname, columns, m₂, hcolumns, _, m₃, hword,
    opening, m₄, hopening, q, m₅, hq, _, m₆, ⟨rfl, rfl⟩, rfl, rfl⟩ := h
  obtain ⟨u, hu, hident⟩ := ident_obeys hname
  obtain ⟨v, hv, hlisted⟩ := columns_obeys inner.bound hcolumns
  obtain ⟨w, hw, hplain⟩ := accept_obeys (by rfl) hword
  obtain ⟨hopens, htakes⟩ := (reads_expect (by decide)).mp hopening
  obtain ⟨x, hx, hclosed⟩ := queryToParen_obeys hin hq
  have htakes' := ((hu.trans hv).trans hw).trans (htakes.trans hx)
  refine ⟨_, htakes', ?_⟩
  rw [htakes'.region (by simp) hfirst]
  apply Rules.NamedQueryRule.intro hident hlisted hplain (.intro hopens hclosed)

theorem query_obeys :
  (query inner).Obeys G.QueryRule
  := by
  intro s q s' h
  simp only [query, reads_bind, reads_here, reads_spanFrom, reads_pure] at h
  obtain ⟨_, m, ⟨⟨first, hfirst, rfl⟩, rfl⟩, named, m₁, hnamed, body, m₂, hbody, order, m₃, horder,
    limit, m₄, hlimit, _, m₅, ⟨rfl, rfl⟩, rfl, rfl⟩ := h
  obtain ⟨n, hn, hnamed⟩ :=
    listed_obeys (by decide) (commaList_obeys inner.bound (namedQuery_obeys hin)) hnamed
  obtain ⟨b, hb, hbody⟩ := body_obeys hin hG hbody
  obtain ⟨o, ho, horder⟩ := listed_obeys (by decide) (behind_obeys (by decide)
    (commaList_obeys inner.bound (sortItem_obeys hin hG))) horder
  obtain ⟨l, hl, hlimit⟩ := afterToken?_obeys (by decide) hin.expression hlimit
  have htakes := ((hn.trans hb).trans ho).trans hl
  refine ⟨_, htakes, ?_⟩
  rw [htakes.region (by simp [hbody.ne_nil]) hfirst]
  apply Rules.QueryRule.intro hnamed hbody horder hlimit

end

/-! ### Levels -/

theorem Rules.within_nonempty (levels : Nat) :
  (within levels).Nonempty
  := by
  cases levels with
  | zero => constructor <;> exact False.elim
  | succ levels =>
      constructor <;> intro _ _ h
      · apply ExpressionRule.ne_nil h
      · apply NegationRule.ne_nil h
      · apply SignedRule.ne_nil h
      · apply QueryRule.ne_nil h
      · obtain ⟨n, h⟩ := h
        apply h.ne_nil
      · apply DataTypeRule.ne_nil h

/-- What may be nested so many levels deep obeys the rules of those levels. -/
theorem Inner.nested_obeys (bound levels : Nat) :
  (Inner.nested bound levels).Obeys (.within levels)
  := by
  induction levels with
  | zero => constructor <;> (intro s a s' h; simp [nested, tooDeep] at h)
  | succ levels ih =>
      have hG := Rules.within_nonempty levels
      constructor
      · apply expression_obeys ih
      · apply negation_obeys ih
      · apply signed_obeys ih
      · apply query_obeys ih hG
      · apply primary_obeys ih hG
      · apply dataType_obeys ih

end SqlFront.Grammar
