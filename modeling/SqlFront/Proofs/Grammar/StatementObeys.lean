import SqlFront.Proofs.Grammar.QueryObeys

/-!
# Statements obey their rules

The productions for merges, loads, exports and verbatim statements obey their rules, and so do
whole statements, scripts and expressions.  What is read from a text is then read, by the rules
for `maxNesting` levels, from the visible tokens of the text.
-/

namespace SqlFront

namespace Grammar

open Production

/-! ### Merges -/

theorem reads_nextIsWord {s s' : Tape} {word : String} {b : Bool} :
  (nextIsWord word).Reads s b s' ↔ (∃ t, s.peek 0 = .ok t ∧ b = t.isWord word) ∧ s' = s
  := by
  simp only [nextIsWord, reads_bind, reads_peek, reads_pure]
  constructor
  · rintro ⟨t, m, ⟨ht, rfl⟩, rfl, rfl⟩
    exact ⟨⟨t, ht, rfl⟩, rfl⟩
  · rintro ⟨⟨t, ht, rfl⟩, rfl⟩
    exact ⟨t, s', ⟨ht, rfl⟩, rfl, rfl⟩

/-- Advancing over a word takes it. -/
theorem takes_word {s s' : Tape} {word : String} {t u : Token} (ht : s.peek 0 = .ok t)
    (hword : t.isWord word) (h : advance.Reads s u s') :
  ∃ used, s.Takes used s' ∧ Plain used
  := by
  have hkind := Token.kind_of_isWord hword
  obtain ⟨rfl, htakes, hplain⟩ := takes_plain_of_advance ht (by rw [hkind]; rfl) h
  exact ⟨[_], htakes, hplain⟩

/-- A word that is wanted. -/
theorem expectWord_obeys (word : String) :
  (expectWord word).Obeys PlainRule
  := by
  intro s a s' hreads
  simp only [expectWord, reads_bind, reads_nextIsWord] at hreads
  obtain ⟨b, m, ⟨⟨t, ht, rfl⟩, rfl⟩, h⟩ := hreads
  split at h
  · next hword => apply takes_word ht hword h
  · simp at h

/-- A plain token that is wanted. -/
theorem expect_obeys {k : Kind} (hk : k.isPlain) :
  (expect k).Obeys PlainRule
  := by
  intro s t s' h
  obtain ⟨hkind, htakes⟩ := (reads_expect (Kind.ne_eof_of_isPlain hk)).mp h
  refine ⟨[t], htakes, plain_cons.mpr ⟨?_, plain_nil⟩⟩
  rw [hkind]
  apply hk

theorem allColumns_obeys (fromSource : Bool) :
  (allColumns fromSource).Obeys PlainRule
  := by
  intro s b s' h
  unfold allColumns at h
  split at h
  · apply accept_obeys (by rfl) h
  · obtain ⟨rfl, rfl⟩ := reads_pure.mp h
    exact ⟨[], .refl _, plain_nil⟩

/-- The words that say which rows a clause concerns. -/
theorem clauseRows_obeys :
  clauseRows.Obeys PlainRule
  := by
  intro s rows s' hreads
  rcases (reads_accept_bind (by decide)).mp hreads with ⟨t, m, ht, htakes, h⟩ | ⟨t, -, -, h⟩
  · have hplain : Plain [t] := by simp [Plain, ht, Kind.isPlain]
    rw [if_pos rfl] at h
    obtain ⟨_, m₁, hmatched, h⟩ := reads_bind.mp h
    obtain ⟨u, hu, hplain₁⟩ := expectWord_obeys _ hmatched
    rcases (reads_accept_bind (by decide)).mp h with ⟨b, m₂, hb, htakes₁, h⟩ | ⟨b, -, -, h⟩
    · have hplain₂ : Plain [b] := by simp [Plain, hb, Kind.isPlain]
      have hbefore := htakes.trans (hu.trans htakes₁)
      have hplain₃ := plain_append.mpr ⟨hplain, plain_append.mpr ⟨hplain₁, hplain₂⟩⟩
      simp only [if_true, reads_bind, reads_nextIsWord] at h
      obtain ⟨_, m₃, ⟨⟨w, hw, rfl⟩, rfl⟩, h⟩ := h
      split at h
      · next hword =>
          simp only [reads_bind, reads_pure] at h
          obtain ⟨_, m₄, hadvance, rfl, rfl⟩ := h
          obtain ⟨v, hv, hplain'⟩ := takes_word hw hword hadvance
          exact ⟨_, hbefore.trans hv, plain_append.mpr ⟨hplain₃, hplain'⟩⟩
      · simp only [reads_bind, reads_nextIsWord] at h
        obtain ⟨_, m₄, ⟨⟨w', hw', rfl⟩, rfl⟩, h⟩ := h
        split at h
        · next hword =>
            simp only [reads_bind, reads_pure] at h
            obtain ⟨_, m₅, hadvance, rfl, rfl⟩ := h
            obtain ⟨v, hv, hplain'⟩ := takes_word hw' hword hadvance
            exact ⟨_, hbefore.trans hv, plain_append.mpr ⟨hplain₃, hplain'⟩⟩
        · simp at h
    · obtain ⟨rfl, rfl⟩ := reads_pure.mp h
      exact ⟨_, htakes.trans hu, plain_append.mpr ⟨hplain, hplain₁⟩⟩
  · simp only [Bool.false_eq_true, if_false, reads_bind, reads_pure] at h
    obtain ⟨_, m₁, hmatched, rfl, rfl⟩ := h
    apply expectWord_obeys _ hmatched

section

variable {inner : Inner} {G : Rules} (hin : inner.Obeys G)

include hin

theorem assignment_obeys :
  (assignment inner).Obeys G.AssignmentRule
  := by
  intro s a s' h
  simp only [assignment, reads_bind, reads_here, reads_spanFrom, reads_pure] at h
  obtain ⟨_, m, ⟨⟨first, hfirst, rfl⟩, rfl⟩, target, m₁, htarget, t, m₂, ht, value, m₃, hvalue, _, m₄,
    ⟨rfl, rfl⟩, rfl, rfl⟩ := h
  obtain ⟨u, hu, hrule⟩ := qualifiedName_obeys inner.bound htarget
  obtain ⟨hkind, htakes⟩ := (reads_expect (by decide)).mp ht
  obtain ⟨v, hv, hrule'⟩ := hin.expression hvalue
  have htakes' := hu.trans (htakes.trans hv)
  refine ⟨_, htakes', ?_⟩
  rw [htakes'.region (by simp) hfirst]
  apply Rules.AssignmentRule.intro hrule (.intro hkind hrule')

theorem changeAction_obeys (fromSource : Bool) :
  (changeAction inner fromSource).Obeys G.ActionRule
  := by
  intro s action s' hreads
  rcases (reads_accept_bind (by decide)).mp hreads with ⟨t, m, ht, htakes, h⟩ | ⟨t, -, -, h⟩
  · obtain ⟨rfl, rfl⟩ := reads_pure.mp h
    exact ⟨[t], htakes, .delete (by simp [Plain, ht, Kind.isPlain])⟩
  · simp only [Bool.false_eq_true, if_false, reads_bind, reads_nextIsWord] at h
    obtain ⟨_, m, ⟨⟨w, hw, rfl⟩, rfl⟩, h⟩ := h
    split at h
    · next hword =>
        simp only [reads_bind] at h
        obtain ⟨_, m₁, hadvance, _, m₂, hset, isAll, m₃, hall, h⟩ := h
        obtain ⟨u, hu, hplain⟩ := takes_word hw hword hadvance
        obtain ⟨v, hv, hplain'⟩ := expect_obeys (by rfl) hset
        obtain ⟨x, hx, hplain₂⟩ := allColumns_obeys fromSource hall
        have hwords := (hu.trans hv).trans hx
        have hplain₃ := plain_append.mpr ⟨plain_append.mpr ⟨hplain, hplain'⟩, hplain₂⟩
        split at h
        · obtain ⟨rfl, rfl⟩ := reads_pure.mp h
          exact ⟨_, hwords, .updateAll hplain₃⟩
        · simp only [reads_bind, reads_pure] at h
          obtain ⟨assignments, m₄, hassignments, rfl, rfl⟩ := h
          obtain ⟨y, hy, hrule⟩ := commaList_obeys inner.bound (assignment_obeys hin) hassignments
          exact ⟨_, hwords.trans hy, .update hplain₃ hrule⟩
    · simp at h

theorem insertAction_obeys :
  (insertAction inner).Obeys G.ActionRule
  := by
  intro s action s' hreads
  obtain ⟨t, m, ht, h⟩ := reads_bind.mp hreads
  obtain ⟨hkind, htakes⟩ := (reads_expect (by decide)).mp ht
  rcases (reads_accept_bind (by decide)).mp h with ⟨a, m₁, ha, htakes', h⟩ | ⟨a, -, -, h⟩
  · obtain ⟨rfl, rfl⟩ := reads_pure.mp h
    exact ⟨_, htakes.trans htakes', .insertAll (by simp [Plain, hkind, ha, Kind.isPlain])⟩
  · simp only [Bool.false_eq_true, if_false, reads_bind, reads_pure] at h
    obtain ⟨columns, m₁, hcolumns, v, m₂, hvalues, opening, m₃, hopening, values, m₄, hlist,
      rfl, rfl⟩ := h
    obtain ⟨u, hu, hlisted⟩ := columns_obeys inner.bound hcolumns
    obtain ⟨hword, htakes₁⟩ := (reads_expect (by decide)).mp hvalues
    obtain ⟨hopens, htakes₂⟩ := (reads_expect (by decide)).mp hopening
    obtain ⟨w, hw, hclosed⟩ := expressionsToParen_obeys hin hlist
    refine ⟨_, (htakes.trans hu).trans (htakes₁.trans (htakes₂.trans hw)), ?_⟩
    apply Rules.ActionRule.insert hkind hlisted (.intro hword (.intro hopens hclosed))

theorem clause_obeys :
  (clause inner).Obeys G.ClauseRule
  := by
  intro s c s' hreads
  simp only [clause, reads_bind (p := here), reads_here] at hreads
  obtain ⟨_, m, ⟨⟨first, hfirst, rfl⟩, rfl⟩, hreads⟩ := hreads
  obtain ⟨t, m₁, ht, hreads⟩ := reads_bind.mp hreads
  obtain ⟨hopens, htakes⟩ := (reads_expect (by decide)).mp ht
  obtain ⟨rows, m₂, hrows, hreads⟩ := reads_bind.mp hreads
  obtain ⟨u, hu, hplain⟩ := clauseRows_obeys hrows
  obtain ⟨condition, m₃, hcondition, hreads⟩ := reads_bind.mp hreads
  obtain ⟨v, hv, hpossible⟩ := afterToken?_obeys (by decide) hin.expression hcondition
  obtain ⟨arrow, m₄, harrow, hreads⟩ := reads_bind.mp hreads
  obtain ⟨hleads, htakes'⟩ := (reads_expect (by decide)).mp harrow
  have haction : ∀ {p : Production Action}, p.Obeys G.ActionRule → (do
      let action ← p
      return ⟨rows, condition, action, ← spanFrom first.span.start⟩ : Production Clause).Reads
        m₄ c s' → ∃ used, m.Takes used s' ∧ G.ClauseRule c used := by
    intro p hp h
    simp only [reads_bind, reads_spanFrom, reads_pure] at h
    obtain ⟨action, m₅, haction, _, m₆, ⟨rfl, rfl⟩, rfl, rfl⟩ := h
    obtain ⟨w, hw, hrule⟩ := hp haction
    have htakes₂ := ((htakes.trans hu).trans hv).trans (htakes'.trans hw)
    refine ⟨_, htakes₂, ?_⟩
    rw [htakes₂.region (by simp) hfirst]
    apply Rules.ClauseRule.intro hopens hplain hpossible hleads hrule
  cases rows with
  | notMatched => apply haction (insertAction_obeys hin) hreads
  | matched => apply haction (changeAction_obeys hin true) hreads
  | notMatchedBySource => apply haction (changeAction_obeys hin false) hreads

theorem mergeSource_obeys :
  (mergeSource inner).Obeys G.MergeSourceRule
  := by
  intro s source s' hreads
  rcases (reads_accept_bind (by decide)).mp hreads with ⟨t, m, ht, htakes, h⟩ | ⟨t, -, -, h⟩
  · simp only [if_true, reads_bind, reads_pure] at h
    obtain ⟨q, m₁, hq, rfl, rfl⟩ := h
    obtain ⟨u, hu, hclosed⟩ := queryToParen_obeys hin hq
    exact ⟨_, htakes.trans hu, .query (.intro ht hclosed)⟩
  · simp only [Bool.false_eq_true, if_false, reads_bind, reads_pure] at h
    obtain ⟨name, m₁, hname, rfl, rfl⟩ := h
    obtain ⟨u, hu, hrule⟩ := qualifiedName_obeys inner.bound hname
    exact ⟨u, hu, .table hrule⟩

theorem clauses_obeys :
  (clauses inner).Obeys fun cs used => Repeated G.ClauseRule cs used ∧ cs ≠ []
  := by
  have hentry : (do if ← nextIs (.keyword .WHEN) then some <$> clause inner else return none :
      Production (Option Clause)).Obeys (Possible G.ClauseRule) := by
    intro s o s' hreads
    simp only [reads_bind, reads_nextIs] at hreads
    obtain ⟨_, m, ⟨-, rfl⟩, h⟩ := hreads
    split at h
    · obtain ⟨c, hc, rfl⟩ := reads_map.mp h
      obtain ⟨u, hu, hrule⟩ := clause_obeys hin hc
      exact ⟨u, hu, .some hrule⟩
    · obtain ⟨rfl, rfl⟩ := reads_pure.mp h
      exact ⟨[], .refl _, .none⟩
  intro s cs s' hreads
  obtain ⟨found, m, hfound, h⟩ := reads_bind.mp hreads
  obtain ⟨u, hu, hrule⟩ := collect_obeys inner.bound hentry hfound
  split at h
  · simp at h
  · next hempty =>
      obtain ⟨rfl, rfl⟩ := reads_pure.mp h
      exact ⟨u, hu, hrule, by simpa using hempty⟩

theorem merge_obeys :
  (merge inner).Obeys G.MergeRule
  := by
  intro s a s' h
  simp only [merge, reads_bind, reads_here, reads_spanFrom, reads_pure] at h
  obtain ⟨_, m, ⟨⟨first, hfirst, rfl⟩, rfl⟩, t, m₁, ht, into, m₂, hinto, target, m₃, htarget,
    targetLabel, m₄, htargetLabel, using', m₅, husing, source, m₆, hsource, sourceLabel, m₇,
    hsourceLabel, on, m₈, hon, condition, m₉, hcondition, clauses, m₁₀, hclauses, _, m₁₁, ⟨rfl, rfl⟩,
    rfl, rfl⟩ := h
  obtain ⟨hopens, htakes⟩ := (reads_expect (by decide)).mp ht
  obtain ⟨hinto, htakes₁⟩ := (reads_expect (by decide)).mp hinto
  obtain ⟨a, ha, htarget⟩ := qualifiedName_obeys inner.bound htarget
  obtain ⟨b, hb, htargetLabel⟩ := label?_obeys htargetLabel
  obtain ⟨husing, htakes₂⟩ := (reads_expect (by decide)).mp husing
  obtain ⟨c, hc, hsource⟩ := mergeSource_obeys hin hsource
  obtain ⟨d, hd, hsourceLabel⟩ := label?_obeys hsourceLabel
  obtain ⟨hon, htakes₃⟩ := (reads_expect (by decide)).mp hon
  obtain ⟨e, he, hcondition⟩ := hin.expression hcondition
  obtain ⟨f, hf, hclauses, hnonempty⟩ := clauses_obeys hin hclauses
  have htakes' := ((((htakes.trans (htakes₁.trans ha)).trans hb).trans (htakes₂.trans hc)).trans
    hd).trans (htakes₃.trans he) |>.trans hf
  refine ⟨_, htakes', ?_⟩
  rw [htakes'.region (by simp) hfirst]
  apply Rules.MergeRule.intro hopens (.intro hinto htarget) htargetLabel (.intro husing hsource)
    hsourceLabel (.intro hon hcondition) hclauses hnonempty

end

/-! ### Loads and exports -/

theorem partitionEntry_obeys (bound : Nat) :
  (partitionEntry bound).Obeys PartitionEntryRule
  := by
  intro s entry s' h
  simp only [partitionEntry, reads_bind, reads_here, reads_spanFrom, reads_pure] at h
  obtain ⟨_, m, ⟨⟨first, hfirst, rfl⟩, rfl⟩, column, m₁, hcolumn, value, m₂, hvalue, _, m₃,
    ⟨rfl, rfl⟩, rfl, rfl⟩ := h
  obtain ⟨u, hu, hrule⟩ := ident_obeys hcolumn
  obtain ⟨v, hv, hpossible⟩ := afterToken?_obeys (by decide) (constant_obeys bound) hvalue
  have htakes := hu.trans hv
  refine ⟨_, htakes, ?_⟩
  rw [htakes.region (by simp [hrule.ne_nil]) hfirst]
  apply PartitionEntryRule.intro hrule hpossible

theorem partition?_obeys (bound : Nat) :
  (partition? bound).Obeys (Possible PartitionRule)
  := by
  intro s o s' hreads
  simp only [partition?, reads_bind, reads_here] at hreads
  obtain ⟨_, m, ⟨⟨first, hfirst, rfl⟩, rfl⟩, hreads⟩ := hreads
  rcases (reads_accept_bind (by decide)).mp hreads with ⟨t, m₁, ht, htakes, h⟩ | ⟨t, -, -, h⟩
  · simp only [if_true, reads_map, reads_bind, reads_spanFrom, reads_pure] at h
    obtain ⟨_, ⟨opening, m₂, hopening, entries, m₃, hentries, closing, m₄, hclosing, _, m₅,
      ⟨rfl, rfl⟩, rfl, rfl⟩, rfl⟩ := h
    obtain ⟨hopens, htakes₁⟩ := (reads_expect (by decide)).mp hopening
    obtain ⟨u, hu, hrule⟩ := commaList_obeys bound (partitionEntry_obeys bound) hentries
    obtain ⟨hcloses, htakes₂⟩ := (reads_expect (by decide)).mp hclosing
    have htakes' := htakes.trans (htakes₁.trans (hu.trans htakes₂))
    refine ⟨_, htakes', .some ?_⟩
    rw [htakes'.region (by simp) hfirst]
    apply PartitionRule.intro ht (.intro hopens (.intro hrule hcloses))
  · obtain ⟨rfl, rfl⟩ := reads_pure.mp h
    exact ⟨[], .refl _, .none⟩

theorem OptionKeyRule.ne_nil {key : String} {u : List Token} (h : OptionKeyRule key u) :
  u ≠ []
  := by
  cases h with
  | string => simp
  | name isName => apply isName.ne_nil

theorem optionKey_obeys (bound : Nat) :
  (optionKey bound).Obeys OptionKeyRule
  := by
  intro s key s' hreads
  obtain ⟨o, m, ho, h⟩ := reads_bind.mp hreads
  rcases (reads_accept? (by decide)).mp ho with ⟨t, rfl, hkind, htakes⟩ | ⟨rfl, rfl, -⟩
  · obtain ⟨rfl, rfl⟩ := reads_pure.mp h
    exact ⟨[t], htakes, .string hkind⟩
  · simp only [reads_bind, reads_pure] at h
    obtain ⟨name, m₁, hname, rfl, rfl⟩ := h
    obtain ⟨u, hu, hrule⟩ := qualifiedName_obeys bound hname
    exact ⟨u, hu, .name hrule⟩

theorem optionEntry_obeys (bound : Nat) :
  (optionEntry bound).Obeys OptionEntryRule
  := by
  intro s entry s' h
  simp only [optionEntry, reads_bind, reads_here, reads_spanFrom, reads_pure] at h
  obtain ⟨_, m, ⟨⟨first, hfirst, rfl⟩, rfl⟩, key, m₁, hkey, _, m₂, ⟨rfl, rfl⟩, _, m₃, heq, value, m₄,
    hvalue, _, m₅, ⟨rfl, rfl⟩, rfl, rfl⟩ := h
  obtain ⟨u, hu, hrule⟩ := optionKey_obeys bound hkey
  obtain ⟨v, hv, hplain⟩ := accept_obeys (by rfl) heq
  obtain ⟨w, hw, hconstant⟩ := constant_obeys bound hvalue
  have htakes := (hu.trans hv).trans hw
  refine ⟨_, htakes, ?_⟩
  rw [htakes.region (by simp [hrule.ne_nil]) hfirst, hu.region hrule.ne_nil hfirst]
  apply OptionEntryRule.intro hrule hplain hconstant

theorem options?_obeys (bound : Nat) :
  (options? bound).Obeys (Possible OptionsRule)
  := by
  intro s o s' hreads
  rcases (reads_accept_bind (by decide)).mp hreads with ⟨t, m₁, ht, htakes, h⟩ | ⟨t, -, -, h⟩
  · simp only [if_true, reads_map, reads_bind, reads_here, reads_spanFrom, reads_pure] at h
    obtain ⟨_, ⟨_, m, ⟨⟨first, hfirst, rfl⟩, rfl⟩, opening, m₂, hopening, entries, m₃, hentries,
      closing, m₄, hclosing, _, m₅, ⟨rfl, rfl⟩, rfl, rfl⟩, rfl⟩ := h
    obtain ⟨hopens, htakes₁⟩ := (reads_expect (by decide)).mp hopening
    obtain ⟨u, hu, hrule⟩ := commaList_obeys bound (optionEntry_obeys bound) hentries
    obtain ⟨hcloses, htakes₂⟩ := (reads_expect (by decide)).mp hclosing
    have htakes' := htakes₁.trans (hu.trans htakes₂)
    refine ⟨_, htakes.trans htakes', .some ?_⟩
    rw [htakes'.region (by simp) hfirst]
    apply OptionsRule.intro ht (.intro hopens (.intro hrule hcloses))
  · obtain ⟨rfl, rfl⟩ := reads_pure.mp h
    exact ⟨[], .refl _, .none⟩

theorem load_obeys (bound : Nat) :
  (load bound).Obeys LoadRule
  := by
  intro s a s' h
  simp only [load, reads_bind, reads_here, reads_spanFrom, reads_pure] at h
  obtain ⟨_, m, ⟨⟨first, hfirst, rfl⟩, rfl⟩, t, m₁, ht, _, m₂, hdata, isLocal, m₃, hlocal, _, m₄,
    hinpath, path, m₅, hpath, overwrite, m₆, hoverwrite, _, m₇, hinto, _, m₈, htableWord, table, m₉,
    htable, partition, m₁₀, hpartition, options, m₁₁, hoptions, _, m₁₂, ⟨rfl, rfl⟩, rfl, rfl⟩ := h
  obtain ⟨hopens, htakes⟩ := (reads_expect (by decide)).mp ht
  obtain ⟨a₁, ha₁, hplain₁⟩ := expect_obeys (by rfl) hdata
  obtain ⟨a₂, ha₂, hplain₂⟩ := accept_obeys (by rfl) hlocal
  obtain ⟨a₃, ha₃, hplain₃⟩ := expect_obeys (by rfl) hinpath
  obtain ⟨b, hb, hpath⟩ := textConstant_obeys bound hpath
  obtain ⟨c₁, hc₁, hplain₄⟩ := accept_obeys (by rfl) hoverwrite
  obtain ⟨c₂, hc₂, hplain₅⟩ := expect_obeys (by rfl) hinto
  obtain ⟨c₃, hc₃, hplain₆⟩ := expect_obeys (by rfl) htableWord
  obtain ⟨d, hd, htable⟩ := qualifiedName_obeys bound htable
  obtain ⟨e, he, hpartition⟩ := partition?_obeys bound hpartition
  obtain ⟨f, hf, hoptions⟩ := options?_obeys bound hoptions
  have hwords := (ha₁.trans ha₂).trans ha₃
  have hwords' := (hc₁.trans hc₂).trans hc₃
  have htakes' := ((((htakes.trans hwords).trans hb).trans hwords').trans hd).trans he |>.trans hf
  refine ⟨_, htakes', ?_⟩
  rw [htakes'.region (by simp) hfirst]
  have hplain : Plain (a₁ ++ a₂ ++ a₃) :=
    plain_append.mpr ⟨plain_append.mpr ⟨hplain₁, hplain₂⟩, hplain₃⟩
  have hplain' : Plain (c₁ ++ c₂ ++ c₃) :=
    plain_append.mpr ⟨plain_append.mpr ⟨hplain₄, hplain₅⟩, hplain₆⟩
  apply LoadRule.intro hopens hplain hpath hplain' htable hpartition hoptions

theorem exportRows_obeys {inner : Inner} {G : Rules} (hin : inner.Obeys G) :
  (exportRows inner).Obeys G.ExportRule
  := by
  intro s a s' h
  simp only [exportRows, reads_bind, reads_here, reads_spanFrom, reads_pure] at h
  obtain ⟨_, m, ⟨⟨first, hfirst, rfl⟩, rfl⟩, t, m₁, ht, q, m₂, hq, to', m₃, hto, path, m₄, hpath,
    format, m₅, hformat, options, m₆, hoptions, _, m₇, ⟨rfl, rfl⟩, rfl, rfl⟩ := h
  obtain ⟨hopens, htakes⟩ := (reads_expect (by decide)).mp ht
  obtain ⟨a, ha, hquery⟩ := hin.query hq
  obtain ⟨hto, htakes₁⟩ := (reads_expect (by decide)).mp hto
  obtain ⟨b, hb, hpath⟩ := textConstant_obeys inner.bound hpath
  obtain ⟨c, hc, hformat⟩ := afterToken?_obeys (by decide) ident_obeys hformat
  obtain ⟨d, hd, hoptions⟩ := options?_obeys inner.bound hoptions
  have htakes' := (((htakes.trans ha).trans (htakes₁.trans hb)).trans hc).trans hd
  refine ⟨_, htakes', ?_⟩
  rw [htakes'.region (by simp) hfirst]
  apply Rules.ExportRule.intro hopens hquery (.intro hto hpath) hformat hoptions

/-! ### Statements taken verbatim -/

/-- The tokens up to a semicolon or the end are taken as they are. -/
theorem balanced_obeys {n depth : Nat} {found ts : List Token} {s s' : Tape}
    (hreads : (balanced n depth found).Reads s ts s') :
  ∃ used, s.Takes used s' ∧ ts = found.reverse ++ used ∧ (∀ t ∈ used, t.kind ≠ .unrecognized) ∧
    ∃ t, s'.peek 0 = .ok t ∧ (t.kind = .eof ∨ t.kind = .semicolon)
  := by
  induction n generalizing depth found s with
  | zero => simp [balanced] at hreads
  | succ n ih =>
      simp only [balanced, reads_bind, reads_peek] at hreads
      obtain ⟨t, m, ⟨ht, rfl⟩, h⟩ := hreads
      have hstep : ∀ {depth' : Nat}, t.kind ≠ .eof → t.kind ≠ .unrecognized →
          (do balanced n depth' ((← advance) :: found) : Production (List Token)).Reads m ts s' →
          ∃ used, m.Takes used s' ∧ ts = found.reverse ++ used ∧
            (∀ t ∈ used, t.kind ≠ .unrecognized) ∧
            ∃ t, s'.peek 0 = .ok t ∧ (t.kind = .eof ∨ t.kind = .semicolon) := by
        intro depth' hne hvalid hrest
        obtain ⟨_, m₁, hadvance, hrest⟩ := reads_bind.mp hrest
        obtain ⟨rfl, htakes⟩ := takes_of_advance ht hne hadvance
        obtain ⟨used, hused, hts, hall, hend⟩ := ih hrest
        refine ⟨_, htakes.trans hused, ?_, ?_, hend⟩
        · simp [hts]
        · simpa using ⟨hvalid, hall⟩
      split at h
      · next hkind =>
          obtain ⟨rfl, rfl⟩ := reads_pure.mp h
          exact ⟨[], .refl _, by simp, by simp, t, ht, .inl hkind⟩
      · simp at h
      · next hkind =>
          obtain ⟨rfl, rfl⟩ := reads_pure.mp h
          exact ⟨[], .refl _, by simp, by simp, t, ht, .inr hkind⟩
      · simp at h
      · simp at h
      · next hkind => apply hstep (by simp [hkind]) (by simp [hkind]) h
      · next hkind => apply hstep (by simp [hkind]) (by simp [hkind]) h
      · next heof hunrecognized _ _ _ _ _ => apply hstep heof hunrecognized h

theorem verbatim_obeys {bound : Nat} {s s' : Tape} {t : Token} {v : Verbatim}
    (ht : s.peek 0 = .ok t) (heof : t.kind ≠ .eof) (hsemicolon : t.kind ≠ .semicolon)
    (h : (verbatim bound).Reads s v s') :
  ∃ used, s.Takes used s' ∧ VerbatimRule v used
  := by
  simp only [verbatim, reads_bind, reads_peek, reads_spanFrom, reads_pure] at h
  obtain ⟨t', m, ⟨ht', rfl⟩, ts, m₁, hts, _, m₂, ⟨rfl, rfl⟩, rfl, rfl⟩ := h
  rw [ht, Except.ok.injEq] at ht'
  subst ht'
  obtain ⟨used, hused, rfl, hvalid, u, hu, hend⟩ := balanced_obeys hts
  cases ts with
  | nil =>
      obtain rfl := Tape.takes_nil.mp hused
      rw [ht, Except.ok.injEq] at hu
      subst hu
      rcases hend with hend | hend <;> contradiction
  | cons w ws =>
      use w :: ws, hused
      have hpeek := hused.peek_zero
      rw [ht, Except.ok.injEq] at hpeek
      subst hpeek
      rw [hused.over_eq]
      apply VerbatimRule.intro hvalid

/-! ### Statements, scripts and expressions -/

section

variable {inner : Inner} {G : Rules} (hin : inner.Obeys G)

include hin

theorem statement_obeys :
  (statement inner).Obeys G.StatementRule
  := by
  intro s a s' hreads
  simp only [statement, reads_bind, reads_peek] at hreads
  obtain ⟨t, m, ⟨ht, rfl⟩, h⟩ := hreads
  have hquery : (do return .query (← inner.query) : Production Statement).Reads m a s' →
      ∃ used, m.Takes used s' ∧ G.StatementRule a used := by
    intro hq
    simp only [reads_bind, reads_pure] at hq
    obtain ⟨q, m₁, hq, rfl, rfl⟩ := hq
    obtain ⟨used, hused, hrule⟩ := hin.query hq
    exact ⟨used, hused, .query hrule⟩
  have hverbatim : t.kind ≠ .eof → t.kind ≠ .semicolon →
      (do return .verbatim (← verbatim inner.bound) : Production Statement).Reads m a s' →
      ∃ used, m.Takes used s' ∧ G.StatementRule a used := by
    intro heof hsemicolon hv
    simp only [reads_bind, reads_pure] at hv
    obtain ⟨v, m₁, hv, rfl, rfl⟩ := hv
    obtain ⟨used, hused, hrule⟩ := verbatim_obeys ht heof hsemicolon hv
    exact ⟨used, hused, .verbatim hrule⟩
  split at h
  · simp only [reads_bind, reads_pure] at h
    obtain ⟨a, m₁, ha, rfl, rfl⟩ := h
    obtain ⟨used, hused, hrule⟩ := merge_obeys hin ha
    exact ⟨used, hused, .merge hrule⟩
  · simp only [reads_bind, reads_pure] at h
    obtain ⟨a, m₁, ha, rfl, rfl⟩ := h
    obtain ⟨used, hused, hrule⟩ := load_obeys inner.bound ha
    exact ⟨used, hused, .load hrule⟩
  · simp only [reads_bind, reads_pure] at h
    obtain ⟨a, m₁, ha, rfl, rfl⟩ := h
    obtain ⟨used, hused, hrule⟩ := exportRows_obeys hin ha
    exact ⟨used, hused, .exportRows hrule⟩
  · apply hquery h
  · apply hquery h
  · apply hquery h
  · apply hquery h
  · apply hquery h
  · next hkind => apply hverbatim (by simp [hkind]) (by simp [hkind]) h
  · next hkind => apply hverbatim (by simp [hkind]) (by simp [hkind]) h
  · next hkind => apply hverbatim (by simp [hkind]) (by simp [hkind]) h
  · next hkind => apply hverbatim (by simp [hkind]) (by simp [hkind]) h
  · simp at h

omit hin in
theorem reads_theEnd {s s' : Tape} {a : Unit} :
  theEnd.Reads s a s' ↔ (∃ t, s.peek 0 = .ok t ∧ t.kind = .eof) ∧ s' = s
  := by
  simp only [theEnd, reads_bind, reads_nextIs]
  constructor
  · rintro ⟨_, m, ⟨⟨t, ht, rfl⟩, rfl⟩, h⟩
    split at h
    · next hkind => exact ⟨⟨t, ht, by simpa using hkind⟩, (reads_pure.mp h).2⟩
    · simp at h
  · rintro ⟨⟨t, ht, hkind⟩, rfl⟩
    refine ⟨true, s', ⟨⟨t, ht, by simp [hkind]⟩, rfl⟩, ?_⟩
    simp

/-- A statement that ends the text. -/
theorem soleStatement_obeys {s s' : Tape} {node : Node}
    (hreads : (soleStatement inner).Reads s node s') :
  ∃ used a, s.Takes used s' ∧ node = .statement a ∧ G.SoleRule a used ∧
    ∃ t, s'.peek 0 = .ok t ∧ t.kind = .eof
  := by
  obtain ⟨a, m, ha, h⟩ := reads_bind.mp hreads
  obtain ⟨used, hused, hrule⟩ := statement_obeys hin ha
  rcases (reads_accept_bind (by decide)).mp h with ⟨t, m₁, ht, htakes, h⟩ | ⟨t, -, -, h⟩
  · simp only [reads_bind, reads_theEnd, reads_pure] at h
    obtain ⟨_, m₂, ⟨hend, rfl⟩, rfl, rfl⟩ := h
    exact ⟨_, a, hused.trans htakes, rfl, .ended hrule ht, hend⟩
  · simp only [reads_bind, reads_theEnd, reads_pure] at h
    obtain ⟨_, m₂, ⟨hend, rfl⟩, rfl, rfl⟩ := h
    exact ⟨used, a, hused, rfl, .bare hrule, hend⟩

/-- The statements of a script that ends the text. -/
theorem statements_obeys {n : Nat} {found nodes : List Node} {s s' : Tape}
    (hreads : (statements inner n found).Reads s nodes s') :
  ∃ used ns, s.Takes used s' ∧ nodes = found.reverse ++ ns ∧ G.ScriptRule ns used ∧
    ∃ t, s'.peek 0 = .ok t ∧ t.kind = .eof
  := by
  induction n generalizing found s with
  | zero => simp [statements] at hreads
  | succ n ih =>
      simp only [statements, reads_bind, reads_peek] at hreads
      obtain ⟨t, m, ⟨ht, rfl⟩, h⟩ := hreads
      split at h
      · next hkind =>
          obtain ⟨rfl, rfl⟩ := reads_pure.mp h
          exact ⟨[], [], .refl _, by simp, .nil, t, ht, hkind⟩
      · next hkind =>
          obtain ⟨_, m₁, hadvance, h⟩ := reads_bind.mp h
          obtain ⟨rfl, htakes⟩ := takes_of_advance ht (by simp [hkind]) hadvance
          obtain ⟨used, ns, hused, hnodes, hrule, hend⟩ := ih h
          exact ⟨_, ns, htakes.trans hused, hnodes, .skip hkind hrule, hend⟩
      · obtain ⟨a, m₁, ha, h⟩ := reads_bind.mp h
        obtain ⟨u, hu, hstatement⟩ := statement_obeys hin ha
        rcases (reads_accept_bind (by decide)).mp h with
          ⟨c, m₂, hc, htakes, hrest⟩ | ⟨c, -, -, hrest⟩
        · obtain ⟨used, ns, hused, rfl, hrule, hend⟩ := ih hrest
          refine ⟨_, .statement a :: ns, hu.trans (htakes.trans hused), by simp, ?_, hend⟩
          apply Rules.ScriptRule.more hstatement hc hrule
        · simp only [Bool.false_eq_true, if_false, reads_bind, reads_theEnd, reads_pure] at hrest
          obtain ⟨_, m₂, ⟨hend, rfl⟩, rfl, rfl⟩ := hrest
          exact ⟨u, [.statement a], hu, by simp, .last hstatement, hend⟩

/-- An expression that ends the text. -/
theorem soleExpression_obeys {s s' : Tape} {node : Node}
    (hreads : (soleExpression inner).Reads s node s') :
  ∃ used e, s.Takes used s' ∧ node = .expression e ∧ G.expression e used ∧
    ∃ t, s'.peek 0 = .ok t ∧ t.kind = .eof
  := by
  simp only [soleExpression, reads_bind, reads_theEnd, reads_pure] at hreads
  obtain ⟨e, m, he, _, m₁, ⟨hend, rfl⟩, rfl, rfl⟩ := hreads
  obtain ⟨used, hused, hrule⟩ := hin.expression he
  exact ⟨used, e, hused, rfl, hrule, hend⟩

end

end Grammar

/-! ### Texts -/

/-- Where only the end is left, all visible tokens of the text have been taken. -/
theorem Tape.Takes.tokens_eq_visible {text : String} {used : List Token} {s : Tape} {t : Token}
    (h : (ofString text).Takes used s) (ht : s.peek 0 = .ok t) (heof : t.kind = .eof) :
  ∃ ts, Token.list text = .ok ts ∧ used = ts.filter (·.isVisible)
  := by
  rcases peek_eq_ok_iff.mp ht with hget | ⟨hget, p, hstop, -⟩
  · have hmem : t ∈ (ofString text).tokens := by
      rw [h.tokens_eq]
      exact List.mem_append_right used (List.mem_of_getElem? hget)
    exact absurd heof (kind_ne_eof_of_mem_ofString text t hmem)
  · have hnil : s.tokens = [] := by simpa using hget
    obtain ⟨ts, hts, htokens⟩ := tokens_ofString (h.stop_eq ▸ hstop)
    use ts, hts
    rw [← htokens, h.tokens_eq, hnil, List.append_nil]

/-- What is yielded on a stream is yielded on its tape. -/
theorem Stream.reads_of_read {α : Type} {s : Stream} {p : Grammar.Inner → Production α} {a : α}
    (h : (s.read p).1 = .ok a) :
  (p (.outermost (s.size + 1))).Reads s.tape a (s.read p).2.tape
  := by
  have hrun : ((p (.outermost (s.size + 1))).run s).1 = .ok a := h
  rw [Production.Reads, ← Production.run_eq_eval, hrun]
  rfl

open Grammar

/-- A statement that a text consists of is read from all of its visible tokens. -/
theorem rule_of_parseStatement {text : String} {node : Node} (h : parseStatement text = .ok node) :
  ∃ ts a, Token.list text = .ok ts ∧ node = .statement a ∧
    (Rules.within maxNesting).SoleRule a (ts.filter (·.isVisible))
  := by
  obtain ⟨used, a, hused, rfl, hrule, t, ht, heof⟩ :=
    soleStatement_obeys (Inner.nested_obeys _ maxNesting) (Stream.reads_of_read h)
  obtain ⟨ts, hts, rfl⟩ := hused.tokens_eq_visible ht heof
  exact ⟨ts, a, hts, rfl, hrule⟩

/-- The statements of a script are read from all of its visible tokens. -/
theorem rule_of_parseScript {text : String} {nodes : List Node}
    (h : parseScript text = .ok nodes) :
  ∃ ts, Token.list text = .ok ts ∧
    (Rules.within maxNesting).ScriptRule nodes (ts.filter (·.isVisible))
  := by
  obtain ⟨used, ns, hused, rfl, hrule, t, ht, heof⟩ :=
    statements_obeys (Inner.nested_obeys _ maxNesting) (Stream.reads_of_read h)
  obtain ⟨ts, hts, rfl⟩ := hused.tokens_eq_visible ht heof
  exact ⟨ts, hts, hrule⟩

/-- An expression that a text consists of is read from all of its visible tokens. -/
theorem rule_of_parseExpression {text : String} {node : Node}
    (h : parseExpression text = .ok node) :
  ∃ ts e, Token.list text = .ok ts ∧ node = .expression e ∧
    (Rules.within maxNesting).expression e (ts.filter (·.isVisible))
  := by
  obtain ⟨used, e, hused, rfl, hrule, t, ht, heof⟩ :=
    soleExpression_obeys (Inner.nested_obeys _ maxNesting) (Stream.reads_of_read h)
  obtain ⟨ts, hts, rfl⟩ := hused.tokens_eq_visible ht heof
  exact ⟨ts, e, hts, rfl, hrule⟩

end SqlFront
