import SqlFront.Proofs.Grammar.Embedded
import SqlFront.Proofs.Printing.Subqueries

/-!
# Queries between parentheses

A text that is read as a query stands for the same query, up to positions, between parentheses: as a
relation, as a value and behind `IN`.  This is so exactly if it does not begin with a parenthesis
itself (`parseStatement_subqueries`): behind two parentheses a relation or an expression is read,
although a query may begin there, and a text that goes on as only a query can is refused
(`subqueries_refused`).
-/

namespace SqlFront

open Grammar Production Token

/-- Whether the first visible token of a text is an opening parenthesis. -/
def beginsWithParen (text : String) : Bool :=
  match Token.list text with
  | .error _ => false
  | .ok tokens => ((tokens.filter (·.isVisible)).head?.map (·.kind)) = some .leftParen

variable {text : String} {ws : List String} {q : Query}

theorem beginsWithParen_iff (htape : forget (Tape.ofString text) = .ofWords ws) :
  beginsWithParen text ↔ leading ws = .leftParen
  := by
  obtain ⟨p, hp⟩ := Tape.stop_of_forget htape
  obtain ⟨ts, hts, htokens⟩ := Tape.tokens_ofString hp
  have hwords : forget (ts.filter (·.isVisible)) = ws.map ofWord := by
    rw [← htokens]
    exact congrArg Tape.tokens htape
  cases ws with
  | nil =>
      have hnil : ts.filter (·.isVisible) = [] := List.map_eq_nil_iff.mp hwords
      simp [beginsWithParen, hts, hnil, leading]
  | cons w ws =>
      obtain ⟨t, rest, hvisible, ht, -⟩ := List.map_eq_cons_iff.mp hwords
      have hkind : t.kind = (ofWord w).kind := by
        rw [← ht]
        rfl
      simp [beginsWithParen, hts, hvisible, hkind, leading]

theorem not_beginsQuery_of_paren (hparen : leading ws = .leftParen) (rest : List String) :
  beginsQuery (leading (ws ++ rest)) = false
  := by
  rw [leading_append (by rw [hparen]; decide), hparen]
  decide

/-! ### The words of the statements -/

section

variable (hws : AreTokens ws) (htape : forget (Tape.ofString text) = .ofWords ws)

include hws htape

theorem forget_relationText :
  forget (Tape.ofString ("SELECT * FROM (" ++ text ++ "\n) x")) =
    .ofWords ("SELECT" :: "*" :: "FROM" :: "(" :: (ws ++ [")", "x"]))
  := by
  have hvs : AreTokens ["SELECT", "*", "FROM"] := areTokens_samples (by decide)
  have hrest : AreTokens [")", "x"] := areTokens_samples (by decide)
  exact Tape.forget_around (Cursor.spells_opening hvs (by decide)) hws htape hrest (by decide)

theorem forget_valueText :
  forget (Tape.ofString ("SELECT (" ++ text ++ "\n)")) =
    .ofWords ("SELECT" :: "(" :: (ws ++ [")"]))
  := by
  have hvs : AreTokens ["SELECT"] := areTokens_samples (by decide)
  have hrest : AreTokens [")"] := areTokens_samples (by decide)
  exact Tape.forget_around (Cursor.spells_opening hvs (by decide)) hws htape hrest (by decide)

theorem forget_testText :
  forget (Tape.ofString ("SELECT a IN (" ++ text ++ "\n)")) =
    .ofWords ("SELECT" :: "a" :: "IN" :: "(" :: (ws ++ [")"]))
  := by
  have hvs : AreTokens ["SELECT", "a", "IN"] := areTokens_samples (by decide)
  have hrest : AreTokens [")"] := areTokens_samples (by decide)
  exact Tape.forget_around (Cursor.spells_opening hvs (by decide)) hws htape hrest (by decide)

/-! ### Where a query begins -/

section

variable (hq : q.Written (maxNesting - 2) ws) (hbegins : beginsQuery (leading ws))

include hq hbegins

theorem readsAs_relation :
  ReadsAs ("SELECT * FROM (" ++ text ++ "\n) x")
    (.query (.ofSelect [] (.single ⟨.star none, .point .start⟩ [q.asRelation])))
  := by
  apply ReadsAs.of_words (forget_relationText hws htape)
  intro bound hbound
  simp only [List.length_append, List.length_cons] at hbound
  exact reads_soleRelation_words hq hbegins (by omega)

theorem readsAs_value :
  ReadsAs ("SELECT (" ++ text ++ "\n)") (.query (.ofSelect [] (.single q.asValue [])))
  := by
  apply ReadsAs.of_words (forget_valueText hws htape)
  intro bound hbound
  simp only [List.length_append, List.length_cons] at hbound
  exact reads_soleValue_words hq hbegins (by omega)

theorem readsAs_test :
  ReadsAs ("SELECT a IN (" ++ text ++ "\n)") (.query (.ofSelect [] (.single q.hasColumn [])))
  := by
  apply ReadsAs.of_words (forget_testText hws htape)
  intro bound hbound
  simp only [List.length_append, List.length_cons] at hbound
  exact reads_soleTest_words hq hbegins (by omega)

end

/-! ### Where a parenthesis stands -/

section

variable (hparen : leading ws = .leftParen)

include hparen

theorem not_readsAs_relation :
  ¬ ReadsAs ("SELECT * FROM (" ++ text ++ "\n) x")
    (.query (.ofSelect [] (.single ⟨.star none, .point .start⟩ [q.asRelation])))
  := by
  intro h
  obtain ⟨bound, _, hbound, hreads⟩ := h.exists_reads (forget_relationText hws htape)
  have hpositive : 1 < bound := (Nat.succ_lt_succ (Nat.succ_pos _)).trans hbound
  exact not_reads_relationStatement (not_beginsQuery_of_paren hparen _) hpositive hreads

theorem not_readsAs_value :
  ¬ ReadsAs ("SELECT (" ++ text ++ "\n)") (.query (.ofSelect [] (.single q.asValue [])))
  := by
  intro h
  obtain ⟨_, _, -, hreads⟩ := h.exists_reads (forget_valueText hws htape)
  exact not_reads_valueStatement (not_beginsQuery_of_paren hparen _) hreads

theorem not_readsAs_test :
  ¬ ReadsAs ("SELECT a IN (" ++ text ++ "\n)") (.query (.ofSelect [] (.single q.hasColumn [])))
  := by
  intro h
  obtain ⟨bound, _, hbound, hreads⟩ := h.exists_reads (forget_testText hws htape)
  have hpositive : 1 < bound := (Nat.succ_lt_succ (Nat.succ_pos _)).trans hbound
  exact not_reads_testStatement (not_beginsQuery_of_paren hparen _) hpositive hreads

end

end

/-- **Queries between parentheses.**  A text that is read as a query, does not end with a semicolon
and leaves two levels of nesting is read as this query, up to positions, between parentheses (as a
relation, as a value and behind `IN`) exactly if it does not begin with a parenthesis. -/
theorem parseStatement_subqueries (h : parseStatement text = .ok (.statement (.query q)))
    (hopen : isComplete text = false) (hleaves : leavesLevels text 2) :
  (ReadsAs ("SELECT * FROM (" ++ text ++ "\n) x")
      (.query (.ofSelect [] (.single ⟨.star none, .point .start⟩ [(forget q).asRelation]))) ↔
    beginsWithParen text = false) ∧
  (ReadsAs ("SELECT (" ++ text ++ "\n)")
      (.query (.ofSelect [] (.single (forget q).asValue []))) ↔
    beginsWithParen text = false) ∧
  (ReadsAs ("SELECT a IN (" ++ text ++ "\n)")
      (.query (.ofSelect [] (.single (forget q).hasColumn []))) ↔
    beginsWithParen text = false)
  := by
  obtain ⟨ws, hws, htape, hfirst, hq⟩ :=
    Query.exists_written_above h hopen hleaves (Nat.le_refl _) (Nat.sub_le _ _)
  have hiff : beginsWithParen text = false ↔ leading ws ≠ .leftParen := by
    rw [← Bool.not_eq_true]
    exact not_congr (beginsWithParen_iff htape)
  rw [hiff]
  have hbegins : leading ws ≠ .leftParen → beginsQuery (leading ws) := hfirst.resolve_right
  refine ⟨?relation, ?value, ?test⟩
  case relation =>
      exact ⟨fun hreads hparen => not_readsAs_relation hws htape hparen hreads,
        fun hparen => readsAs_relation hws htape hq (hbegins hparen)⟩
  case value =>
      exact ⟨fun hreads hparen => not_readsAs_value hws htape hparen hreads,
        fun hparen => readsAs_value hws htape hq (hbegins hparen)⟩
  case test =>
      exact ⟨fun hreads hparen => not_readsAs_test hws htape hparen hreads,
        fun hparen => readsAs_test hws htape hq (hbegins hparen)⟩

/-- A union with a query between parentheses, which does not begin with one. -/
theorem parseStatement_subqueries_union :
  ∃ q, parseStatement "TABLE b UNION (TABLE c)" = .ok (.statement (.query q)) ∧
    ReadsAs ("SELECT * FROM (" ++ "TABLE b UNION (TABLE c)" ++ "\n) x")
      (.query (.ofSelect [] (.single ⟨.star none, .point .start⟩ [(forget q).asRelation]))) ∧
    ReadsAs ("SELECT (" ++ "TABLE b UNION (TABLE c)" ++ "\n)")
      (.query (.ofSelect [] (.single (forget q).asValue []))) ∧
    ReadsAs ("SELECT a IN (" ++ "TABLE b UNION (TABLE c)" ++ "\n)")
      (.query (.ofSelect [] (.single (forget q).hasColumn [])))
  := by
  obtain ⟨hquery, hparen, hopen, hleaves⟩ : isQuery "TABLE b UNION (TABLE c)" ∧
      beginsWithParen "TABLE b UNION (TABLE c)" = false ∧
      isComplete "TABLE b UNION (TABLE c)" = false ∧
      leavesLevels "TABLE b UNION (TABLE c)" 2 := by decide +kernel
  obtain ⟨q, h⟩ := exists_of_isQuery hquery
  obtain ⟨hrelation, hvalue, htest⟩ := parseStatement_subqueries h hopen hleaves
  exact ⟨q, h, hrelation.mpr hparen, hvalue.mpr hparen, htest.mpr hparen⟩

theorem not_readsAs_of_error (h : (parseStatement text).isOk = false) (s : Statement) :
  ¬ ReadsAs text s
  := by
  rintro ⟨s', hs', -⟩
  rw [hs'] at h
  contradiction

/-- A union of a query between parentheses and another one is a query, but between parentheses it is
refused as a relation, as a value and behind `IN`. -/
theorem subqueries_refused :
  ∃ q, parseStatement "(TABLE a) UNION TABLE b" = .ok (.statement (.query q)) ∧
    isComplete "(TABLE a) UNION TABLE b" = false ∧ leavesLevels "(TABLE a) UNION TABLE b" 2 ∧
    (∀ s, ¬ ReadsAs ("SELECT * FROM (" ++ "(TABLE a) UNION TABLE b" ++ "\n) x") s) ∧
    (∀ s, ¬ ReadsAs ("SELECT (" ++ "(TABLE a) UNION TABLE b" ++ "\n)") s) ∧
    ∀ s, ¬ ReadsAs ("SELECT a IN (" ++ "(TABLE a) UNION TABLE b" ++ "\n)") s
  := by
  obtain ⟨hquery, hopen, hleaves⟩ : isQuery "(TABLE a) UNION TABLE b" ∧
      isComplete "(TABLE a) UNION TABLE b" = false ∧
      leavesLevels "(TABLE a) UNION TABLE b" 2 := by decide +kernel
  obtain ⟨hrelation, hvalue, htest⟩ :
      (parseStatement ("SELECT * FROM (" ++ "(TABLE a) UNION TABLE b" ++ "\n) x")).isOk = false ∧
      (parseStatement ("SELECT (" ++ "(TABLE a) UNION TABLE b" ++ "\n)")).isOk = false ∧
      (parseStatement ("SELECT a IN (" ++ "(TABLE a) UNION TABLE b" ++ "\n)")).isOk = false := by
    decide +kernel
  obtain ⟨q, h⟩ := exists_of_isQuery hquery
  exact ⟨q, h, hopen, hleaves, not_readsAs_of_error hrelation, not_readsAs_of_error hvalue,
    not_readsAs_of_error htest⟩

end SqlFront
