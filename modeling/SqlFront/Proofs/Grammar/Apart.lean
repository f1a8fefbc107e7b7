import SqlFront.Proofs.Printing.RoundTrip
import SqlFront.Proofs.Printing.Selections

/-!
# Selections taken apart

If a text is read as a selection of one expression, the expression is read where it stands
(`expression_of_select`), and the relations behind it where they stand (`relations_of_select`).  An
expression without operators of some levels is read by a higher tier (`tier_of_reads`).
-/

namespace SqlFront

open Token

namespace Grammar

open Production

variable {inner : Inner} {s m s' : Tape} {e left : Expression} {level high n : Nat}
  {operand : Production Expression} {ws tail : List String} {rs : List Relation}

/-! ### Expressions -/

theorem operations_eq_or_level (h : (operations level operand n left).Reads m e s') :
  e = left ∨ e.form.level = level
  := by
  induction n generalizing left m with
  | zero => simp [operations] at h
  | succ n ih =>
      obtain ⟨t, m, -, h⟩ := reads_bind.mp h
      split at h
      · next op hop =>
          obtain ⟨-, hlevel⟩ := Option.filter_eq_some_iff.mp hop
          obtain ⟨_, _, -, h⟩ := reads_bind.mp h
          obtain ⟨right, _, -, h⟩ := reads_bind.mp h
          right
          rcases ih h with rfl | h
          · exact of_decide_eq_true hlevel
          · exact h
      · exact .inl (reads_pure.mp h).1

theorem atLevel_operand {bound : Nat} (h : (atLevel bound level operand).Reads s e s')
    (hform : e.form.level ≠ level) :
  ∃ m, operand.Reads s e m
  := by
  obtain ⟨left, m, hleft, h⟩ := reads_bind.mp h
  obtain rfl := (operations_eq_or_level h).resolve_right hform
  exact ⟨m, hleft⟩

/-- Before a predicate stands a comparison, which an expression without a predicate is. -/
theorem predicate_comparison {G : Rules} (hin : inner.Obeys G)
    (h : (predicate inner).Reads (.ofWords ws) e s') (hform : e.form.level ≠ 4) :
  ∃ m, (comparison inner).Reads (.ofWords ws) e m
  := by
  obtain ⟨subject, m, hsubject, h⟩ := reads_bind.mp (h.of_bind (reads_here_words _))
  obtain ⟨negated, _, -, h⟩ := reads_bind.mp h
  obtain ⟨form?, _, hform?, h⟩ := reads_bind.mp h
  rcases predicateForm?_obeys hin hform? with ⟨form, _, rfl, -, hrule⟩ | ⟨rfl, -⟩
  · obtain ⟨region, _, -, h⟩ := reads_bind.mp h
    obtain ⟨rfl, -⟩ := reads_pure.mp h
    exact absurd hrule.level_eq hform
  · obtain ⟨rfl, -⟩ := reads_pure.mp h
    exact ⟨m, hsubject⟩

/-- An expression without an operator of a tier is read by the next tier, if it does not begin like
one with such an operator. -/
theorem tier_succ_of_reads {G : Rules} (hin : inner.Obeys G) (hlevel : level < 12)
    (hfirst : level < (leading ws).opens) (h : (tier inner level).Reads (.ofWords ws) e s')
    (hform : e.form.level ≠ level) :
  ∃ m, (tier inner (level + 1)).Reads (.ofWords ws) e m
  := by
  match level, hlevel with
  | 3, _ =>
      have hnot : leading ws ≠ .keyword .NOT := by
        intro heq
        simp [heq, Kind.opens] at hfirst
      have hexists : leading ws ≠ .keyword .EXISTS := by
        intro heq
        simp [heq, Kind.opens, Kind.isName, Keyword.isReserved] at hfirst
      have hrest := h.of_bind (reads_here_words _)
      have hrest := hrest.of_bind (reads_accept_not (by decide) hnot)
      exact ⟨s', hrest.of_bind (reads_nextAre_not hexists)⟩
  | 4, _ => exact predicate_comparison hin h hform
  | 11, _ =>
      obtain ⟨t, hpeek, hkind, -⟩ := reads_peek_words ws
      have hrest := h.of_bind hpeek
      rw [hkind, Kind.ofKind?_of_opens hfirst] at hrest
      exact ⟨s', hrest⟩
  | 0, _ | 1, _ | 2, _ | 5, _ | 6, _ | 7, _ | 8, _ | 9, _ | 10, _ => exact atLevel_operand h hform

/-- An expression without operators of a tier or below it is read by the tier above, if it does not
begin like one with such an operator. -/
theorem tier_of_reads {G : Rules} (hin : inner.Obeys G) (hhigh : high ≤ 12)
    (hfirst : high ≤ (leading ws).opens) (h : (tier inner 1).Reads (.ofWords ws) e s')
    (hlow : 1 ≤ high) (hform : high ≤ e.form.level) :
  ∃ m, (tier inner high).Reads (.ofWords ws) e m
  := by
  induction high, hlow using Nat.le_induction with
  | base => exact ⟨s', h⟩
  | succ high _ ih =>
      obtain ⟨m, hm⟩ := ih (by omega) (by omega) (by omega)
      exact tier_succ_of_reads hin (by omega) (by omega) hm (by omega)

/-! ### Selections -/

theorem combinations_select {op? : Kind → Option SetOp} {start : Position}
    {operand : Production Body} {left : Body} {q : Select}
    (h : (combinations op? start operand n left).Reads m (.select q) s') :
  left = .select q
  := by
  induction n generalizing left m with
  | zero => simp [combinations] at h
  | succ n ih =>
      obtain ⟨t, m, -, h⟩ := reads_bind.mp h
      split at h
      · obtain ⟨_, _, -, h⟩ := reads_bind.mp h
        obtain ⟨_, _, -, h⟩ := reads_bind.mp h
        obtain ⟨_, _, -, h⟩ := reads_bind.mp h
        obtain ⟨_, _, -, h⟩ := reads_bind.mp h
        have := ih h
        contradiction
      · exact (reads_pure.mp h).1.symm

theorem combined_select {op? : Kind → Option SetOp} {operand : Production Body} {bound : Nat}
    {q : Select} (h : (combined bound op? operand).Reads (.ofWords ws) (.select q) s') :
  ∃ m, operand.Reads (.ofWords ws) (.select q) m
  := by
  obtain ⟨left, m, hleft, h⟩ := reads_bind.mp (h.of_bind (reads_here_words _))
  obtain rfl := combinations_select h
  exact ⟨m, hleft⟩

/-- A query that is nothing but a selection is read as this selection. -/
theorem select_of_query {q : Select}
    (h : (Grammar.query inner).Reads (.ofWords (Keyword.SELECT.spelling :: ws)) (.ofSelect [] q) s') :
  ∃ m, (select inner).Reads (.ofWords (Keyword.SELECT.spelling :: ws)) q m
  := by
  have hrest := (h.of_bind (reads_here_words _)).of_bind reads_namedQueries_none
  obtain ⟨b, m, hbody, hrest⟩ := reads_bind.mp hrest
  obtain ⟨order, _, -, hrest⟩ := reads_bind.mp hrest
  obtain ⟨limit, _, -, hrest⟩ := reads_bind.mp hrest
  obtain ⟨region, _, -, hrest⟩ := reads_bind.mp hrest
  obtain rfl : .select q = b := (Query.mk.inj (reads_pure.mp hrest).1).2.1
  obtain ⟨m, hbody⟩ := combined_select hbody
  obtain ⟨m, hbody⟩ := combined_select hbody
  have hselect := hbody.of_bind (reads_peek_word _ _)
  rw [kind_ofWord kindOf?_select] at hselect
  obtain ⟨q', m, hq, hselect⟩ := reads_bind.mp hselect
  obtain rfl : q = q' := Body.select.inj (reads_pure.mp hselect).1
  exact ⟨m, hq⟩

theorem commaList_first {α : Type} {p : Production α} {bound : Nat} {a : α} {as : List α}
    (h : (commaList bound p).Reads s (a :: as) s') :
  ∃ m, p.Reads s a m
  := by
  obtain ⟨a', m, ha, h⟩ := reads_bind.mp h
  obtain ⟨further, _, -, h⟩ := reads_bind.mp h
  obtain ⟨rfl, -⟩ := List.cons.inj (reads_pure.mp h).1
  exact ⟨m, ha⟩

section

variable
  (h : (select inner).Reads (.ofWords (Keyword.SELECT.spelling :: ws)) (.single e rs) s')
  (hdistinct : leading ws ≠ .keyword .DISTINCT) (hall : leading ws ≠ .keyword .ALL)

include h hdistinct hall

/-- Behind the expression that is selected stand the relations. -/
theorem items_of_select :
  ∃ m m', (commaList inner.bound (selectItem inner)).Reads (.ofWords ws) [⟨e, none, .point .start⟩] m ∧
    (relations inner).Reads m rs m'
  := by
  have hrest := (h.of_bind (reads_here_words _)).of_bind (reads_expect_word kindOf?_select _)
  have hrest := hrest.of_bind (reads_quantifier?_none hdistinct hall)
  obtain ⟨items, m, hitems, hrest⟩ := reads_bind.mp hrest
  obtain ⟨relations, m', hrelations, hrest⟩ := reads_bind.mp hrest
  obtain ⟨condition, _, -, hrest⟩ := reads_bind.mp hrest
  obtain ⟨grouping, _, -, hrest⟩ := reads_bind.mp hrest
  obtain ⟨having, _, -, hrest⟩ := reads_bind.mp hrest
  obtain ⟨region, _, -, hrest⟩ := reads_bind.mp hrest
  obtain ⟨-, rfl, rfl, -⟩ := Select.mk.inj (reads_pure.mp hrest).1
  exact ⟨m, m', hitems, hrelations⟩

theorem expression_of_select :
  ∃ m, inner.expression.Reads (.ofWords ws) e m
  := by
  obtain ⟨_, _, hitems, -⟩ := items_of_select h hdistinct hall
  obtain ⟨_, hitem⟩ := commaList_first hitems
  obtain ⟨value, m, hvalue, hrest⟩ := reads_bind.mp (hitem.of_bind (reads_here_words _))
  obtain ⟨label, _, -, hrest⟩ := reads_bind.mp hrest
  obtain ⟨region, _, -, hrest⟩ := reads_bind.mp hrest
  obtain rfl : e = value := (SelectItem.mk.inj (reads_pure.mp hrest).1).1
  exact ⟨m, hvalue⟩

theorem relations_of_select (hbound : inner.bound ≠ 0) (htail : EndsItem tail)
    (he : inner.expression.Reads (.ofWords ws) e (.ofWords tail)) :
  ∃ m, (relations inner).Reads (.ofWords tail) rs m
  := by
  obtain ⟨m, m', hitems, hrelations⟩ := items_of_select h hdistinct hall
  obtain ⟨-, rfl⟩ := hitems.unique (reads_commaList_single hbound (reads_item_words htail he)
    (htail.ne (by decide) (by decide)))
  exact ⟨m', hrelations⟩

end

end Grammar

end SqlFront
