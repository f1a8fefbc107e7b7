import SqlFront.Proofs.Grammar.Apart
import SqlFront.Proofs.Printing.Around

/-!
# Subqueries from their words

As a relation, as a value and behind `IN`, a query stands between parentheses where something else
may stand too.  The first token behind the parenthesis decides: if a query begins there, a query is
read.  Statements with such queries are read from the words around the query.
-/

namespace SqlFront

open Grammar Production Token

/-- The relation `x` of the rows of a query, without positions. -/
def Query.asRelation (q : Query) : Relation :=
  ⟨.subquery q (some (.plain "x")) (.point .start), [], .point .start⟩

/-- The value of a query, without positions. -/
def Query.asValue (q : Query) : Expression := ⟨.subquery q, .point .start⟩

/-- The test whether the column `a` is among the values of a query, without positions. -/
def Query.hasColumn (q : Query) : Expression :=
  ⟨.inQuery (forget (.ofColumn "a")) false q, .point .start⟩

variable {bound levels : Nat} {ws rest : List String} {q : Query}

/-- A query goes on where its words do not end. -/
theorem leading_query (hbegins : beginsQuery (leading ws)) (rest : List String) :
  leading (ws ++ rest) = leading ws
  := by
  apply leading_append
  intro heof
  rw [heof] at hbegins
  contradiction

/-- What a tier reads is an expression one level further out. -/
theorem reads_expression_of_tier {vs : List String} {e : Expression} {level : Nat}
    (hbound : bound ≠ 0) (hlow : 1 ≤ level) (hhigh : level ≤ 12) (hrest : (leading rest).binds < 1)
    (hfirst : level ≤ (leading vs).opens)
    (h : (tier (.nested bound levels) level).Reads (.ofWords vs) e (.ofWords rest)) :
  (Inner.nested bound (levels + 1)).expression.Reads (.ofWords vs) e (.ofWords rest)
  := by
  have hinner : (Inner.nested bound levels).bound ≠ 0 := by
    rwa [Inner.bound_nested]
  change (tier (.nested bound levels) 1).Reads (.ofWords vs) e (.ofWords rest)
  exact reads_tier_of_le hinner hlow hhigh hrest hfirst h

theorem reads_star_words (hbound : 1 < bound) (hrest : (leading rest).binds < 1) :
  (Inner.nested bound (levels + 1)).expression.Reads (.ofWords ("*" :: rest))
    ⟨.star none, .point .start⟩ (.ofWords rest)
  := by
  have hstar : (Inner.nested bound (levels + 1)).expression.Recovers 1 ⟨.star none, default⟩ :=
    ReadBack.expression (Nat.succ_pos levels) (Expression.Writable.star.readBack hbound)
  exact hstar rest hrest

theorem recovers_column (hbound : 1 < bound) :
  (comparison (.nested bound levels)).Recovers 5 (.ofColumn "a")
  := by
  have hback : ReadBack (.nested bound levels) (.ofColumn "a") :=
    (Expression.writable_ofColumn kindOf?_a).readBack hbound levels (Nat.zero_le _)
  exact hback.recovers (by decide) (by decide)

section

variable (hq : q.Written levels ws) (hbegins : beginsQuery (leading ws))
  (hbound : ws.length + 1 < bound)

include hq hbegins hbound

/-! ### Relations -/

theorem reads_subqueryPrimary_words :
  (primary (.nested bound levels)).Reads (.ofWords ("(" :: (ws ++ [")", "x"])))
    (.subquery q (some (.plain "x")) (.point .start)) (.ofWords [])
  := by
  obtain ⟨n, hn⟩ := Nat.exists_eq_succ_of_ne_zero (Nat.ne_zero_of_lt hbound)
  obtain ⟨t, hsecond, hkind⟩ := reads_second_words "(" (ws ++ [")", "x"])
  rw [primary, Inner.bound_nested, hn, primaryUpTo, ← hn]
  apply (reads_here_words _).bind
  apply (reads_nextIs_words (leading_cons kindOf?_leftParen _)).bind_true
  apply hsecond.bind
  rw [hkind, leading_query hbegins, if_pos hbegins]
  apply (reads_advance_word _ _).bind
  apply (reads_queryToParen_words hq (Nat.lt_of_succ_lt hbound) _).bind
  apply (reads_label?_word (kindOf?_of_mem_samples (by simp [samples])) _).bind
  apply (reads_spanFrom_words _).bind
  apply reads_done_self

theorem reads_subqueryRelations_words :
  (relations (.nested bound (levels + 1))).Reads (.ofWords ("FROM" :: "(" :: (ws ++ [")", "x"])))
    [q.asRelation] (.ofWords [])
  := by
  have hpositive : bound ≠ 0 := Nat.ne_zero_of_lt hbound
  have hrelation : (relation (.nested bound (levels + 1))).Reads
      (.ofWords ("(" :: (ws ++ [")", "x"]))) q.asRelation (.ofWords []) := by
    apply (reads_here_words _).bind
    apply Reads.bind (reads_subqueryPrimary_words hq hbegins hbound)
    apply (reads_collect.mpr ⟨[], Nat.pos_of_ne_zero hpositive, rfl,
      .nil (reads_joinWith?_none (.inl rfl))⟩).bind
    apply (reads_spanFrom_words _).bind
    apply reads_done_self
  apply (reads_accept_word kindOf?_from _).bind_true
  exact reads_commaList_single hpositive hrelation (leading_nil_ne (by decide))

/-- A statement that selects everything from a query is read if the query is. -/
theorem reads_soleRelation_words :
  (soleStatement (.nested bound (levels + 2))).Reads
    (.ofWords ("SELECT" :: "*" :: "FROM" :: "(" :: (ws ++ [")", "x"])))
    (.statement (.query (.ofSelect [] (.single ⟨.star none, .point .start⟩ [q.asRelation]))))
    (.ofWords [])
  := by
  have hfrom : leading ("FROM" :: "(" :: (ws ++ [")", "x"])) = .keyword .FROM :=
    leading_cons kindOf?_from _
  have hasterisk := leading_cons kindOf?_asterisk ("FROM" :: "(" :: (ws ++ [")", "x"]))
  exact reads_selection_words (by omega) (by rw [hasterisk]; decide) (by rw [hasterisk]; decide)
    (.inr hfrom) (reads_star_words (by omega) (by rw [hfrom]; decide))
    (reads_subqueryRelations_words hq hbegins hbound)

/-! ### Values -/

theorem reads_subqueryForm_words (rest : List String) :
  (parenForm (.nested bound levels)).Reads (.ofWords ("(" :: (ws ++ ")" :: rest))) (.subquery q)
    (.ofWords rest)
  := by
  obtain ⟨t, hsecond, hkind⟩ := reads_second_words "(" (ws ++ ")" :: rest)
  apply hsecond.bind
  rw [hkind, leading_query hbegins, if_pos hbegins]
  apply (reads_advance_word _ _).bind
  apply (reads_queryToParen_words hq (Nat.lt_of_succ_lt hbound) rest).bind
  apply reads_done_self

/-- A statement that selects the value of a query is read if the query is. -/
theorem reads_soleValue_words :
  (soleStatement (.nested bound (levels + 2))).Reads (.ofWords ("SELECT" :: "(" :: (ws ++ [")"])))
    (.statement (.query (.ofSelect [] (.single q.asValue [])))) (.ofWords [])
  := by
  have hparen : leading ("(" :: (ws ++ [")"])) = .leftParen := leading_cons kindOf?_leftParen _
  have hprimary : (tier (.nested bound levels) 12).Reads (.ofWords ("(" :: (ws ++ [")"]))) q.asValue
      (.ofWords []) := by
    apply reads_primaryExpression_word
    rw [primaryForm, kind_ofWord kindOf?_leftParen]
    exact reads_subqueryForm_words hq hbegins hbound []
  have hvalue := reads_expression_of_tier (by omega) (by decide) (by decide) (by decide)
    (by rw [hparen]; decide) hprimary
  exact reads_selection_words (by omega) (by rw [hparen]; decide) (by rw [hparen]; decide)
    (.inl rfl) hvalue reads_relations_none

/-! ### Tests -/

theorem reads_inQuery_words :
  (predicate (.nested bound levels)).Reads (.ofWords ("a" :: "IN" :: "(" :: (ws ++ [")"])))
    q.hasColumn (.ofWords [])
  := by
  have hin : leading ("IN" :: "(" :: (ws ++ [")"])) = .keyword .IN :=
    leading_sample (by simp [samples]) _
  have hform : (predicateForm? (.nested bound levels) (forget (.ofColumn "a")) false).Reads
      (.ofWords ("IN" :: "(" :: (ws ++ [")"]))) (some q.hasColumn.form) (.ofWords []) := by
    obtain ⟨t, hpeek, hkind, -⟩ := reads_peek_words (ws ++ [")"])
    apply (reads_peek_word _ _).bind
    rw [kind_ofWord (kindOf?_of_mem_samples (k := .keyword .IN) (by simp [samples]))]
    apply (reads_advance_word _ _).bind
    apply (reads_expect_word kindOf?_leftParen _).bind
    apply hpeek.bind
    rw [hkind, leading_query hbegins, if_pos hbegins]
    apply (reads_queryToParen_words hq (Nat.lt_of_succ_lt hbound) _).bind
    apply reads_done_self
  exact reads_predicate_words (recovers_column (by omega)) (by rw [hin]; decide)
    (reads_negated_not (by rw [hin]; decide)) hform

/-- A statement that selects whether a column is in a query is read if the query is. -/
theorem reads_soleTest_words :
  (soleStatement (.nested bound (levels + 2))).Reads
    (.ofWords ("SELECT" :: "a" :: "IN" :: "(" :: (ws ++ [")"])))
    (.statement (.query (.ofSelect [] (.single q.hasColumn [])))) (.ofWords [])
  := by
  have ha : leading ("a" :: "IN" :: "(" :: (ws ++ [")"])) = .identifier := leading_cons kindOf?_a _
  have hpredicate : (tier (.nested bound levels) 4).Reads
      (.ofWords ("a" :: "IN" :: "(" :: (ws ++ [")"]))) q.hasColumn (.ofWords []) :=
    reads_inQuery_words hq hbegins hbound
  have hvalue := reads_expression_of_tier (by omega) (by decide) (by decide) (by decide)
    (by rw [ha]; decide) hpredicate
  exact reads_selection_words (by omega) (by rw [ha]; decide) (by rw [ha]; decide)
    (.inl rfl) hvalue reads_relations_none

end

/-! ### Where no query begins -/

section

variable {s : Tape} (hnot : beginsQuery (leading ws) = false)

include hnot

theorem not_reads_subqueryPrimary {label : Option Ident} {span : Span} :
  ¬ (primary (.nested bound levels)).Reads (.ofWords ("(" :: ws)) (.subquery q label span) s
  := by
  intro h
  rw [primary, Inner.bound_nested] at h
  cases bound with
  | zero => simp [primaryUpTo] at h
  | succ n =>
      obtain ⟨t, hsecond, hkind⟩ := reads_second_words "(" ws
      have hrest := h.of_bind (reads_here_words _)
      have hrest := hrest.of_bind (reads_nextIs_words (leading_cons kindOf?_leftParen _))
      rw [if_pos rfl] at hrest
      have hrest := hrest.of_bind hsecond
      rw [hkind, hnot, if_neg Bool.false_ne_true] at hrest
      simp only [reads_bind, reads_pure] at hrest
      obtain ⟨_, _, -, _, _, -, _, _, -, _, _, -, hne, -⟩ := hrest
      contradiction

theorem not_reads_subqueryForm :
  ¬ (parenForm (.nested bound levels)).Reads (.ofWords ("(" :: ws)) (.subquery q) s
  := by
  intro h
  obtain ⟨t, hsecond, hkind⟩ := reads_second_words "(" ws
  have hrest := h.of_bind hsecond
  rw [hkind, hnot, if_neg Bool.false_ne_true] at hrest
  obtain ⟨_, _, -, hrest⟩ := reads_bind.mp hrest
  obtain ⟨_, _, -, hrest⟩ := reads_bind.mp hrest
  obtain ⟨closed, _, -, hrest⟩ := reads_bind.mp hrest
  cases closed with
  | true => simp at hrest
  | false => simp at hrest

theorem not_reads_inQueryForm {subject : Expression} {negated : Bool} :
  ¬ (predicateForm? (.nested bound levels) subject negated).Reads
    (.ofWords ("IN" :: "(" :: ws)) (some (.inQuery subject negated q)) s
  := by
  intro h
  obtain ⟨t, hpeek, hkind, -⟩ := reads_peek_words ws
  have hrest := h.of_bind (reads_peek_word _ _)
  rw [kind_ofWord (kindOf?_of_mem_samples (k := .keyword .IN) (by simp [samples]))] at hrest
  have hrest := hrest.of_bind (reads_advance_word _ _)
  have hrest := hrest.of_bind (reads_expect_word kindOf?_leftParen _)
  have hrest := hrest.of_bind hpeek
  rw [hkind, hnot, if_neg Bool.false_ne_true] at hrest
  simp at hrest

/-- A statement does not select everything from a query where none begins. -/
theorem not_reads_relationStatement (hbound : 1 < bound) :
  ¬ (statement (.nested bound (levels + 2))).Reads
    (.ofWords ("SELECT" :: "*" :: "FROM" :: "(" :: ws))
    (.query (.ofSelect [] (.single ⟨.star none, .point .start⟩ [q.asRelation]))) s
  := by
  intro h
  have hasterisk := leading_cons kindOf?_asterisk ("FROM" :: "(" :: ws)
  have hfrom : leading ("FROM" :: "(" :: ws) = .keyword .FROM := leading_cons kindOf?_from _
  have hpositive : (Inner.nested bound (levels + 1)).bound ≠ 0 := by
    rw [Inner.bound_nested]
    omega
  obtain ⟨_, hselect⟩ := select_of_query (query_of_statement h).1
  obtain ⟨_, hrelations⟩ := relations_of_select hselect (by rw [hasterisk]; decide)
    (by rw [hasterisk]; decide) hpositive (.inr hfrom)
    (reads_star_words hbound (by rw [hfrom]; decide))
  have hlist := hrelations.of_bind (reads_accept_word kindOf?_from _)
  rw [if_pos rfl] at hlist
  obtain ⟨_, hrelation⟩ := commaList_first hlist
  obtain ⟨first, _, hfirst, hrest⟩ := reads_bind.mp (hrelation.of_bind (reads_here_words _))
  obtain ⟨joins, _, -, hrest⟩ := reads_bind.mp hrest
  obtain ⟨region, _, -, hrest⟩ := reads_bind.mp hrest
  obtain ⟨rfl, -, -⟩ := Relation.mk.inj (reads_pure.mp hrest).1
  exact not_reads_subqueryPrimary hnot hfirst

/-- A statement does not select the value of a query where none begins. -/
theorem not_reads_valueStatement :
  ¬ (statement (.nested bound (levels + 2))).Reads (.ofWords ("SELECT" :: "(" :: ws))
    (.query (.ofSelect [] (.single q.asValue []))) s
  := by
  intro h
  have hparen := leading_cons kindOf?_leftParen ws
  obtain ⟨_, hselect⟩ := select_of_query (query_of_statement h).1
  obtain ⟨_, he⟩ := expression_of_select hselect (by rw [hparen]; decide) (by rw [hparen]; decide)
  have hvalue : (tier (.nested bound levels) 1).Reads (.ofWords ("(" :: ws)) q.asValue _ := he
  obtain ⟨_, hprimary⟩ := tier_of_reads (Inner.nested_obeys bound levels) (by decide)
    (by rw [hparen]; decide) hvalue (by decide) (Nat.le_refl 12)
  have hform := hprimary.of_bind (reads_peek_word _ _)
  obtain ⟨form, _, hform, hrest⟩ := reads_bind.mp hform
  obtain ⟨region, _, -, hrest⟩ := reads_bind.mp hrest
  obtain ⟨rfl, -⟩ := Expression.mk.inj (reads_pure.mp hrest).1
  rw [primaryForm, kind_ofWord kindOf?_leftParen] at hform
  exact not_reads_subqueryForm hnot hform

/-- A statement does not select whether a column is in a query where none begins. -/
theorem not_reads_testStatement (hbound : 1 < bound) :
  ¬ (statement (.nested bound (levels + 2))).Reads (.ofWords ("SELECT" :: "a" :: "IN" :: "(" :: ws))
    (.query (.ofSelect [] (.single q.hasColumn []))) s
  := by
  intro h
  have ha := leading_cons kindOf?_a ("IN" :: "(" :: ws)
  have hin : leading ("IN" :: "(" :: ws) = .keyword .IN := leading_sample (by simp [samples]) _
  obtain ⟨_, hselect⟩ := select_of_query (query_of_statement h).1
  obtain ⟨_, he⟩ := expression_of_select hselect (by rw [ha]; decide) (by rw [ha]; decide)
  have htest : (tier (.nested bound levels) 1).Reads (.ofWords ("a" :: "IN" :: "(" :: ws))
      q.hasColumn _ := he
  obtain ⟨_, hpredicate⟩ := tier_of_reads (Inner.nested_obeys bound levels) (by decide)
    (by rw [ha]; decide) htest (by decide) (Nat.le_refl 4)
  have hrest := hpredicate.of_bind (reads_here_words _)
  have hrest := hrest.of_bind (recovers_column hbound ("IN" :: "(" :: ws) (by rw [hin]; decide))
  have hrest := hrest.of_bind (reads_negated_not (by rw [hin]; decide))
  obtain ⟨form?, _, hform, hrest⟩ := reads_bind.mp hrest
  cases form? with
  | none =>
      have hcolumn := congrArg Expression.form (reads_pure.mp hrest).1
      contradiction
  | some form =>
      obtain ⟨region, _, -, hrest⟩ := reads_bind.mp hrest
      obtain ⟨rfl, -⟩ := Expression.mk.inj (reads_pure.mp hrest).1
      exact not_reads_inQueryForm hnot hform

end

end SqlFront
