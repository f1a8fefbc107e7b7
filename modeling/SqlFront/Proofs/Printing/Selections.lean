import SqlFront.Proofs.Printing.Texts

/-!
# Selections from their words

A statement that consists of a selection is read from `SELECT`, the words of the one expression that
is selected, and the words of the relations that it is selected from.  Named queries may stand before
it; everything else that may stand in a query is left out.
-/

namespace SqlFront

open Token Grammar Production

/-- The selection of one expression from relations, without positions. -/
def Select.single (e : Expression) (rs : List Relation) : Select :=
  ⟨none, [⟨e, none, .point .start⟩], rs, none, none, none, .point .start⟩

/-- The query of a selection behind named queries, without positions. -/
def Query.ofSelect (named : List NamedQuery) (s : Select) : Query :=
  ⟨named, .select s, [], none, .point .start⟩

variable {inner : Inner} {vs ws tail rest : List String} {e : Expression} {rs : List Relation}

theorem reads_label?_none (has : leading rest ≠ .keyword .AS)
    (hname : (leading rest).isName = false) :
  label?.Reads (.ofWords rest) none (.ofWords rest)
  := by
  obtain ⟨t, hpeek, hkind, -⟩ := reads_peek_words rest
  apply (reads_accept_not (by decide) has).bind_false
  apply hpeek.bind
  rw [hkind, hname, if_neg Bool.false_ne_true]
  apply reads_done_self

theorem reads_commaList_single {α : Type} {p : Production α} {s : Tape} {a : α} {bound : Nat}
    (hbound : bound ≠ 0) (h : p.Reads s a (.ofWords rest)) (hrest : leading rest ≠ .comma) :
  (commaList bound p).Reads s [a] (.ofWords rest)
  := by
  have hstop : ReadsEach (do if ← accept .comma then some <$> p else return none)
      (.ofWords rest) [] (.ofWords rest) :=
    .nil ((reads_accept_not (by decide) hrest).bind_false (reads_done_self _ _))
  apply h.bind
  apply (reads_collect.mpr ⟨[], Nat.pos_of_ne_zero hbound, rfl, hstop⟩).bind
  apply reads_done_self

/-- What ends a selected expression without a label: the relations or the end of the text. -/
def EndsItem (tail : List String) : Prop := leading tail = .eof ∨ leading tail = .keyword .FROM

theorem EndsItem.ne {k : Kind} (htail : EndsItem tail) (heof : k ≠ .eof)
    (hfrom : k ≠ .keyword .FROM) :
  leading tail ≠ k
  := by
  rcases htail with h | h
  · rw [h]
    exact heof.symm
  · rw [h]
    exact hfrom.symm

theorem reads_quantifier?_none (hdistinct : leading ws ≠ .keyword .DISTINCT)
    (hall : leading ws ≠ .keyword .ALL) :
  quantifier?.Reads (.ofWords ws) none (.ofWords ws)
  := by
  apply (reads_accept_not (by decide) hdistinct).bind_false
  apply (reads_accept_not (by decide) hall).bind_false
  apply reads_done_self

theorem reads_item_words (htail : EndsItem tail)
    (he : inner.expression.Reads (.ofWords ws) e (.ofWords tail)) :
  (selectItem inner).Reads (.ofWords ws) ⟨e, none, .point .start⟩ (.ofWords tail)
  := by
  have hname : (leading tail).isName = false := by
    rcases htail with h | h <;> rw [h] <;> rfl
  apply (reads_here_words _).bind
  apply he.bind
  apply (reads_label?_none (htail.ne (by decide) (by decide)) hname).bind
  apply (reads_spanFrom_words _).bind
  apply reads_done_self

/-- A selection of one expression is read if the expression and the relations are. -/
theorem reads_select_words (hbound : inner.bound ≠ 0) (hdistinct : leading ws ≠ .keyword .DISTINCT)
    (hall : leading ws ≠ .keyword .ALL) (htail : EndsItem tail)
    (he : inner.expression.Reads (.ofWords ws) e (.ofWords tail))
    (hrelations : (relations inner).Reads (.ofWords tail) rs (.ofWords [])) :
  (select inner).Reads (.ofWords (Keyword.SELECT.spelling :: ws)) (.single e rs) (.ofWords [])
  := by
  have hitem := reads_item_words htail he
  have hgroupBy : (groupBy? inner).Reads (.ofWords []) none (.ofWords []) := by
    apply (reads_here_words _).bind
    apply reads_afterToken?_not (by decide) (leading_nil_ne (by decide))
  apply (reads_here_words _).bind
  apply (reads_expect_word kindOf?_select _).bind
  apply (reads_quantifier?_none hdistinct hall).bind
  apply (reads_commaList_single hbound hitem (htail.ne (by decide) (by decide))).bind
  apply hrelations.bind
  apply (reads_afterToken?_not (by decide) (leading_nil_ne (by decide))).bind
  apply hgroupBy.bind
  apply (reads_afterToken?_not (by decide) (leading_nil_ne (by decide))).bind
  apply (reads_spanFrom_words _).bind
  apply reads_done_self

theorem reads_combined_single {op? : Kind → Option SetOp} {operand : Production Body} {b : Body}
    {bound : Nat} (hbound : bound ≠ 0) (hop : op? .eof = none)
    (h : operand.Reads (.ofWords ws) b (.ofWords [])) :
  (combined bound op? operand).Reads (.ofWords ws) b (.ofWords [])
  := by
  obtain ⟨n, rfl⟩ := Nat.exists_eq_succ_of_ne_zero hbound
  obtain ⟨t, hpeek, hkind, -⟩ := reads_peek_words []
  have heof : op? t.kind = none := by
    rw [hkind]
    apply hop
  apply (reads_here_words _).bind
  apply h.bind
  apply hpeek.bind
  rw [heof]
  apply reads_done_self

/-- A query is read that is nothing but a selection behind named queries. -/
theorem reads_query_words {q : Select} {named : List NamedQuery} (hbound : inner.bound ≠ 0)
    (hnamed : (namedQueries inner).Reads (.ofWords vs) named
      (.ofWords (Keyword.SELECT.spelling :: ws)))
    (hq : (select inner).Reads (.ofWords (Keyword.SELECT.spelling :: ws)) q (.ofWords [])) :
  (Grammar.query inner).Reads (.ofWords vs) (.ofSelect named q) (.ofWords [])
  := by
  have hsimple : (simpleBody inner).Reads (.ofWords (Keyword.SELECT.spelling :: ws)) (.select q)
      (.ofWords []) := by
    apply (reads_peek_word _ _).bind
    rw [kind_ofWord kindOf?_select]
    apply hq.bind
    apply reads_done_self
  have hbody : (body inner).Reads (.ofWords (Keyword.SELECT.spelling :: ws)) (.select q)
      (.ofWords []) :=
    reads_combined_single hbound rfl (reads_combined_single hbound rfl hsimple)
  have horder : (order inner).Reads (.ofWords []) [] (.ofWords []) := by
    apply (reads_accept_not (by decide) (leading_nil_ne (by decide))).bind_false
    apply reads_done_self
  apply (reads_here_words _).bind
  apply hnamed.bind
  apply hbody.bind
  apply horder.bind
  apply (reads_afterToken?_not (by decide) (leading_nil_ne (by decide))).bind
  apply (reads_spanFrom_words _).bind
  apply reads_done_self

/-- Before a selection there need be no named queries. -/
theorem reads_namedQueries_none :
  (namedQueries inner).Reads (.ofWords (Keyword.SELECT.spelling :: ws)) []
    (.ofWords (Keyword.SELECT.spelling :: ws))
  := by
  have hwith : leading (Keyword.SELECT.spelling :: ws) ≠ .keyword .WITH := by
    rw [leading_cons kindOf?_select]
    decide
  apply (reads_accept_not (by decide) hwith).bind_false
  apply reads_done_self

/-- A selection need not be from relations. -/
theorem reads_relations_none :
  (relations inner).Reads (.ofWords []) [] (.ofWords [])
  := by
  apply (reads_accept_not (by decide) (leading_nil_ne (by decide))).bind_false
  apply reads_done_self

/-- A statement is read that is nothing but a selection of one expression. -/
theorem reads_selection_words {bound levels : Nat} (hbound : bound ≠ 0)
    (hdistinct : leading ws ≠ .keyword .DISTINCT) (hall : leading ws ≠ .keyword .ALL)
    (htail : EndsItem tail)
    (he : (Inner.nested bound levels).expression.Reads (.ofWords ws) e (.ofWords tail))
    (hrelations : (relations (.nested bound levels)).Reads (.ofWords tail) rs (.ofWords [])) :
  (soleStatement (.nested bound (levels + 1))).Reads (.ofWords (Keyword.SELECT.spelling :: ws))
    (.statement (.query (.ofSelect [] (.single e rs)))) (.ofWords [])
  := by
  have hinner : (Inner.nested bound levels).bound ≠ 0 := by
    rwa [Inner.bound_nested]
  have hselect := reads_select_words hinner hdistinct hall htail he hrelations
  have hquery := reads_query_words hinner reads_namedQueries_none hselect
  apply reads_soleStatement_words
  apply (reads_peek_word _ _).bind
  rw [kind_ofWord kindOf?_select]
  apply Reads.bind hquery
  apply reads_done_self

end SqlFront
