import SqlFront.Proofs.Printing.Queries

/-!
# Statements around queries

Exports, merges, tests for rows and named queries are read from the words that stand around a query
in them: what the query is written with makes no difference.
-/

namespace SqlFront

open Grammar Production Token

/-! ### Words around queries -/

theorem leading_sample {word : String} {k : Kind} (h : (word, k) ∈ samples) (ws : List String) :
  leading (word :: ws) = k
  := leading_cons (kindOf?_of_mem_samples h) ws

/-- A name without quotes, without positions. -/
def Ident.plain (name : String) : Ident := ⟨name, false, .point .start⟩

/-- A name that is not qualified, without positions. -/
def QualifiedName.plain (name : String) : QualifiedName := ⟨[.plain name], .point .start⟩

variable {inner : Inner} {bound levels : Nat} {ws rest : List String} {q : Query} {name : String}
  {k : Kind}

theorem reads_plain_word (hname : kindOf? name = some .identifier) (rest : List String) :
  ident.Reads (.ofWords (name :: rest)) (.plain name) (.ofWords rest)
  := reads_ident_word (Ident.isWritable_of_identifier hname (.point .start)) rest

theorem reads_plainName_word (hname : kindOf? name = some .identifier) (hbound : 1 ≤ bound)
    (hrest : leading rest ≠ .dot) :
  (qualifiedName bound).Reads (.ofWords (name :: rest)) (.plain name) (.ofWords rest)
  := by
  have hwritable : (QualifiedName.plain name).isWritable :=
    QualifiedName.isWritable_of_identifier hname _ _
  exact reads_qualifiedName_words hwritable hbound (reads_dottedIdent_not hrest)

/-- A name that stands for itself is a label. -/
theorem reads_label?_word (hname : kindOf? name = some .identifier) (rest : List String) :
  label?.Reads (.ofWords (name :: rest)) (some (.plain name)) (.ofWords rest)
  := by
  have has : leading (name :: rest) ≠ .keyword .AS := by
    rw [leading_cons hname]
    exact Kind.noConfusion
  apply (reads_accept_not (by decide) has).bind_false
  apply (reads_peek_word _ _).bind
  rw [kind_ofWord hname]
  exact (reads_plain_word hname rest).map some

/-! ### Queries between parentheses -/

theorem Tape.closing_paren (rest : List String) :
  Tape.Closing ((")" :: rest).map ofWord)
  := .paren (kind_ofWord kindOf?_rightParen)

theorem reads_queryToParen_words (hq : q.Written levels ws) (hbound : ws.length < bound)
    (rest : List String) :
  (queryToParen (.nested bound levels)).Reads (.ofWords (ws ++ ")" :: rest)) q (.ofWords rest)
  := by
  apply (hq bound _ hbound (Tape.closing_paren rest)).bind
  apply (reads_expect_word kindOf?_rightParen rest).bind
  apply reads_done_self

/-! ### Exports -/

/-- The export of a query to the path `p`, without positions. -/
def Query.exported (q : Query) : Export :=
  ⟨q, ⟨.string "p", .point .start⟩, none, none, .point .start⟩

theorem reads_exportRows_words (hq : q.Written levels ws) (hbound : ws.length + 1 < bound) :
  (exportRows (.nested bound levels)).Reads (.ofWords ("EXPORT" :: (ws ++ ["TO", "'p'"])))
    q.exported (.ofWords [])
  := by
  have hstring : (ofWord "'p'").kind = .string := kind_ofWord (Text.kindOf?_quote "p")
  have hclosing : Tape.Closing (["TO", "'p'"].map ofWord) := by
    apply Tape.Closing.toPath
    · exact kind_ofWord (kindOf?_of_mem_samples (by simp [samples]))
    · rw [hstring]
      rfl
  apply (reads_here_words _).bind
  apply (reads_expect_word (kindOf?_of_mem_samples (by simp [samples])) _).bind
  apply (hq bound _ (by omega) hclosing).bind
  apply (reads_expect_word (kindOf?_of_mem_samples (by simp [samples])) _).bind
  rw [Inner.bound_nested]
  apply (reads_textConstant_word "p" (by omega) (leading_nil_ne (by decide))).bind
  apply (reads_afterToken?_not (by decide) (leading_nil_ne (by decide))).bind
  apply (reads_afterToken?_not (by decide) (leading_nil_ne (by decide))).bind
  apply (reads_spanFrom_words _).bind
  apply reads_done_self

theorem reads_soleExport_words (hq : q.Written levels ws) (hbound : ws.length + 1 < bound) :
  (soleStatement (.nested bound levels)).Reads (.ofWords ("EXPORT" :: (ws ++ ["TO", "'p'"])))
    (.statement (.exportRows q.exported)) (.ofWords [])
  := by
  apply reads_soleStatement_words
  apply (reads_peek_word _ _).bind
  rw [kind_ofWord (kindOf?_of_mem_samples (k := .keyword .EXPORT) (by simp [samples]))]
  apply (reads_exportRows_words hq hbound).bind
  apply reads_done_self

/-! ### Merges -/

/-- The condition of the merge of a query, that `a = b`. -/
def Expression.sameColumns : Expression :=
  ⟨.binary .eq (.ofColumn "a") (.ofColumn "b"), default⟩

/-- The merge of a query `s` into the table `t`, which deletes the rows where `a = b`, without
positions. -/
def Query.merged (q : Query) : Merge :=
  ⟨.plain "t", none, .query q, some (.plain "s"), forget .sameColumns,
    [⟨.matched, none, .delete, .point .start⟩], .point .start⟩

/-- The words behind the query in its merge. -/
def Token.mergeWords : List String :=
  [")", "s", "ON", "a", "=", "b", "WHEN", "MATCHED", "THEN", "DELETE"]

theorem reads_clauses_words (hbound : 1 < inner.bound) :
  (clauses inner).Reads (.ofWords ["WHEN", "MATCHED", "THEN", "DELETE"])
    [⟨.matched, none, .delete, .point .start⟩] (.ofWords [])
  := by
  have hmatched : leading ["MATCHED", "THEN", "DELETE"] = .identifier :=
    leading_sample (by simp [samples]) _
  have hthen : leading ["THEN", "DELETE"] = .keyword .THEN := leading_sample (by simp [samples]) _
  have hrows : clauseRows.Reads (.ofWords ["MATCHED", "THEN", "DELETE"]) .matched
      (.ofWords ["THEN", "DELETE"]) := by
    have hword : (ofWord "MATCHED").isWord "MATCHED" = true := by decide +kernel
    have hnext : (nextIsWord "MATCHED").Reads (.ofWords ["MATCHED", "THEN", "DELETE"]) true
        (.ofWords ["MATCHED", "THEN", "DELETE"]) := by
      apply (reads_peek_word _ _).bind
      rw [hword]
      apply reads_done_self
    apply (reads_accept_not (by decide) (by rw [hmatched]; decide)).bind_false
    apply (hnext.bind_true (reads_advance_word _ _)).bind
    apply reads_done_self
  have hclause : (clause inner).Reads (.ofWords ["WHEN", "MATCHED", "THEN", "DELETE"])
      ⟨.matched, none, .delete, .point .start⟩ (.ofWords []) := by
    apply (reads_here_words _).bind
    apply (reads_expect_word (kindOf?_of_mem_samples (by simp [samples])) _).bind
    apply hrows.bind
    apply (reads_afterToken?_not (by decide) (by rw [hthen]; decide)).bind
    apply (reads_expect_word (kindOf?_of_mem_samples (by simp [samples])) _).bind
    apply Reads.bind
    · apply (reads_accept_word (kindOf?_of_mem_samples (by simp [samples])) _).bind_true
      apply reads_done_self
    · apply (reads_spanFrom_words _).bind
      apply reads_done_self
  have heach : ReadsEach
      (do if ← nextIs (.keyword .WHEN) then some <$> clause inner else return none)
      (.ofWords ["WHEN", "MATCHED", "THEN", "DELETE"]) [⟨.matched, none, .delete, .point .start⟩]
      (.ofWords []) := by
    apply ReadsEach.cons
    · exact (reads_nextIs_words (leading_sample (by simp [samples]) _)).bind_true (hclause.map some)
    · apply ReadsEach.nil
      exact (reads_nextIs_not (leading_nil_ne (by decide))).bind_false (reads_done_self _ _)
  apply (reads_collect.mpr ⟨_, by simpa using hbound, rfl, heach⟩).bind
  apply reads_done_self

theorem Expression.writable_ofColumn {name : String} (hname : kindOf? name = some .identifier) :
  (ofColumn name).Writable
  := .column (QualifiedName.isWritable_of_identifier hname _ _)

theorem Expression.writable_sameColumns :
  sameColumns.Writable
  := .binary (writable_ofColumn kindOf?_a) (writable_ofColumn kindOf?_b) (by decide) (by decide)

theorem reads_merge_words (hq : q.Written (levels + 1) ws) (hbound : ws.length + 4 < bound) :
  (merge (.nested bound (levels + 1))).Reads
    (.ofWords ("MERGE" :: "INTO" :: "t" :: "USING" :: "(" :: (ws ++ mergeWords))) q.merged
    (.ofWords [])
  := by
  have husing : leading ("USING" :: "(" :: (ws ++ mergeWords)) = .keyword .USING :=
    leading_sample (by simp [samples]) _
  have hcondition : (Inner.nested bound (levels + 1)).expression.Recovers 1 .sameColumns :=
    ReadBack.expression (Nat.succ_pos levels) (Expression.writable_sameColumns.readBack (by
      change 3 < bound
      omega))
  have hclauses : leading ["WHEN", "MATCHED", "THEN", "DELETE"] = .keyword .WHEN :=
    leading_sample (by simp [samples]) _
  apply (reads_here_words _).bind
  apply (reads_expect_word (kindOf?_of_mem_samples (by simp [samples])) _).bind
  apply (reads_expect_word (kindOf?_of_mem_samples (by simp [samples])) _).bind
  rw [Inner.bound_nested]
  apply (reads_plainName_word (kindOf?_of_mem_samples (by simp [samples])) (by omega)
    (by rw [husing]; decide)).bind
  apply (reads_label?_none (by rw [husing]; decide) (by rw [husing]; rfl)).bind
  apply (reads_expect_word (kindOf?_of_mem_samples (by simp [samples])) _).bind
  apply Reads.bind
  · apply (reads_accept_word kindOf?_leftParen _).bind_true
    apply (reads_queryToParen_words hq (by omega) _).bind
    apply reads_done_self
  apply (reads_label?_word (kindOf?_of_mem_samples (by simp [samples])) _).bind
  apply (reads_expect_word (kindOf?_of_mem_samples (by simp [samples])) _).bind
  apply (hcondition ["WHEN", "MATCHED", "THEN", "DELETE"] (by rw [hclauses]; decide)).bind
  apply (reads_clauses_words (by rw [Inner.bound_nested]; omega)).bind
  apply (reads_spanFrom_words _).bind
  apply reads_done_self

theorem reads_soleMerge_words (hq : q.Written (levels + 1) ws) (hbound : ws.length + 4 < bound) :
  (soleStatement (.nested bound (levels + 1))).Reads
    (.ofWords ("MERGE" :: "INTO" :: "t" :: "USING" :: "(" :: (ws ++ mergeWords)))
    (.statement (.merge q.merged)) (.ofWords [])
  := by
  apply reads_soleStatement_words
  apply (reads_peek_word _ _).bind
  rw [kind_ofWord (kindOf?_of_mem_samples (k := .keyword .MERGE) (by simp [samples]))]
  apply (reads_merge_words hq hbound).bind
  apply reads_done_self

/-! ### Tests for rows -/

/-- A test whether a query has rows, without positions. -/
def Query.exist (q : Query) : Expression := ⟨.exist q, .point .start⟩

theorem reads_exist_words (hq : q.Written levels ws) (hbound : ws.length < bound)
    (hrest : (leading rest).binds = 0) :
  (Inner.nested bound (levels + 1)).expression.Reads
    (.ofWords ("EXISTS" :: "(" :: (ws ++ ")" :: rest))) q.exist (.ofWords rest)
  := by
  have hexists : leading ("EXISTS" :: "(" :: (ws ++ ")" :: rest)) = .keyword .EXISTS :=
    leading_sample (by simp [samples]) _
  have hpositive : (Inner.nested bound levels).bound ≠ 0 := by
    rw [Inner.bound_nested]
    omega
  apply reads_atLevel_single hpositive (by omega)
  apply reads_atLevel_single hpositive (by omega)
  apply (reads_here_words _).bind
  apply (reads_accept_not (by decide) (by rw [hexists]; decide)).bind_false
  apply (reads_nextAre_words hexists (leading_cons kindOf?_leftParen _)).bind_true
  apply (reads_advance_word _ _).bind
  apply (reads_advance_word _ _).bind
  apply (reads_queryToParen_words hq hbound rest).bind
  apply (reads_spanFrom_words _).bind
  apply reads_done_self

/-- A statement that selects whether a query has rows is read if the query is. -/
theorem reads_soleExist_words (hq : q.Written levels ws) (hbound : ws.length < bound) :
  (soleStatement (.nested bound (levels + 2))).Reads
    (.ofWords ("SELECT" :: "EXISTS" :: "(" :: (ws ++ [")"])))
    (.statement (.query (.ofSelect [] (.single q.exist [])))) (.ofWords [])
  := by
  have hexists : leading ("EXISTS" :: "(" :: (ws ++ [")"])) = .keyword .EXISTS :=
    leading_sample (by simp [samples]) _
  exact reads_selection_words (by omega) (by rw [hexists]; decide) (by rw [hexists]; decide)
    (.inl rfl) (reads_exist_words hq hbound rfl) reads_relations_none

/-! ### Named queries -/

/-- A query with a name, without positions. -/
def Query.withName (q : Query) (name : String) : NamedQuery := ⟨.plain name, [], q, .point .start⟩

theorem reads_namedQueries_words (hq : q.Written levels ws) (hbound : ws.length < bound)
    (hrest : leading rest ≠ .comma) :
  (namedQueries (.nested bound levels)).Reads
    (.ofWords ("WITH" :: "x" :: "AS" :: "(" :: (ws ++ ")" :: rest))) [q.withName "x"]
    (.ofWords rest)
  := by
  have has : leading ("AS" :: "(" :: (ws ++ ")" :: rest)) = .keyword .AS :=
    leading_sample (by simp [samples]) _
  have hnamed : (namedQuery (.nested bound levels)).Reads
      (.ofWords ("x" :: "AS" :: "(" :: (ws ++ ")" :: rest))) (q.withName "x") (.ofWords rest) := by
    apply (reads_here_words _).bind
    apply (reads_plain_word (kindOf?_of_mem_samples (by simp [samples])) _).bind
    apply Reads.bind
    · apply (reads_nextIs_not (by rw [has]; decide)).bind_false
      apply reads_done_self
    apply (reads_accept_word (kindOf?_of_mem_samples (by simp [samples])) _).bind
    apply (reads_expect_word kindOf?_leftParen _).bind
    apply (reads_queryToParen_words hq hbound rest).bind
    apply (reads_spanFrom_words _).bind
    apply reads_done_self
  apply (reads_accept_word (kindOf?_of_mem_samples (by simp [samples])) _).bind_true
  apply reads_commaList_single (by rw [Inner.bound_nested]; omega) hnamed hrest

/-- The number one, without positions. -/
def Expression.one : Expression := ⟨.literal (.number .integer "1"), .point .start⟩

/-- A statement that selects a number behind a query with a name is read if the query is. -/
theorem reads_soleNamed_words (hq : q.Written (levels + 1) ws) (hbound : ws.length + 1 < bound) :
  (soleStatement (.nested bound (levels + 2))).Reads
    (.ofWords ("WITH" :: "x" :: "AS" :: "(" :: (ws ++ [")", "SELECT", "1"])))
    (.statement (.query (.ofSelect [q.withName "x"] (.single .one [])))) (.ofWords [])
  := by
  have hpositive : (Inner.nested bound (levels + 1)).bound ≠ 0 := by
    rw [Inner.bound_nested]
    omega
  have hone : leading ["1"] = .number .integer := leading_cons kindOf?_one []
  have hwritable : Expression.one.Writable := .literal (decide_eq_true kindOf?_one)
  have hvalue : (Inner.nested bound (levels + 1)).expression.Reads (.ofWords ["1"]) .one
      (.ofWords []) :=
    ReadBack.expression (Nat.succ_pos levels) (hwritable.readBack (by
      change 1 < bound
      omega)) [] (by decide)
  have hselect := reads_select_words hpositive (by rw [hone]; decide) (by rw [hone]; decide)
    (.inl rfl) hvalue reads_relations_none
  have hnamed := reads_namedQueries_words hq (Nat.lt_of_succ_lt hbound) (by
    rw [show leading ["SELECT", "1"] = .keyword .SELECT from leading_cons kindOf?_select _]
    decide)
  apply reads_soleStatement_words
  apply (reads_peek_word _ _).bind
  rw [kind_ofWord (kindOf?_of_mem_samples (k := .keyword .WITH) (by simp [samples]))]
  apply Reads.bind (reads_query_words hpositive hnamed hselect)
  apply reads_done_self

end SqlFront
