import SqlFront.Proofs.Nesting.Limit
import SqlFront.Proofs.Printing.Around

/-!
# Queries within statements

A query means the same wherever it stands.  A text that is read as a query stands for the same
query, up to positions, in the text of an export, of a merge, of a test for rows or of a named query
(`parseStatement_embedded`).  It must not end with a semicolon, behind which no statement goes on,
and a line feed follows it, where a comment at its end is over.

An export and a merge hold the query on the level of the statement; a test for rows and a named
query hold it further in, so that levels of nesting have to be left (`leavesLevels`).
-/

namespace SqlFront

open Grammar Production Token

/-- Whether a text is read as a statement with so many levels of nesting left. -/
def leavesLevels (text : String) (levels : Nat) : Bool :=
  (parseStatementWithin (maxNesting - levels) text).isOk

/-- Whether a text is read as a query. -/
def isQuery (text : String) : Bool :=
  match parseStatement text with
  | .ok (.statement (.query _)) => true
  | _ => false

variable {text before behind : String} {vs ws rest : List String} {q : Query} {s : Statement}
  {levels n : Nat}

theorem exists_of_isQuery (h : isQuery text) :
  ∃ q, parseStatement text = .ok (.statement (.query q))
  := by
  unfold isQuery at h
  split at h
  case h_1 q hq => exact ⟨q, hq⟩
  case h_2 => contradiction

theorem leavesLevels_zero (h : parseStatement text = .ok (.statement s)) :
  leavesLevels text 0
  := by
  change (parseStatement text).isOk = true
  rw [h]
  rfl

theorem Node.exists_query_of_forget {node : Node} (h : forget node = .statement (.query q)) :
  ∃ q', node = .statement (.query q') ∧ forget q' = q
  := by
  cases node with
  | expression e => contradiction
  | statement s =>
      have hs : forget s = .query q := Node.statement.inj h
      cases s with
      | query q' => exact ⟨q', rfl, Statement.query.inj hs⟩
      | merge _ | load _ | exportRows _ | verbatim _ => contradiction

/-- A query that leaves some levels of nesting is written with the words of its text on all levels
above them. -/
theorem Query.exists_written_above (h : parseStatement text = .ok (.statement (.query q)))
    (hopen : isComplete text = false) (hleaves : leavesLevels text levels)
    (hlow : maxNesting - levels ≤ n) (hhigh : n ≤ maxNesting) :
  ∃ ws, AreTokens ws ∧ forget (Tape.ofString text) = .ofWords ws ∧
    (beginsQuery (leading ws) ∨ leading ws = .leftParen) ∧ (forget q).Written n ws
  := by
  obtain ⟨node, hnode⟩ : ∃ node, parseStatementWithin (maxNesting - levels) text = .ok node := by
    cases hresult : parseStatementWithin (maxNesting - levels) text with
    | ok node => exact ⟨node, rfl⟩
    | error e => simp [leavesLevels, hresult, Except.isOk, Except.toBool] at hleaves
  obtain ⟨node, hnode, -⟩ := parseStatementWithin_mono hlow hnode
  obtain ⟨node', hnode', hforget⟩ := parseStatementWithin_mono hhigh hnode
  obtain rfl : .statement (.query q) = node' := Except.ok.inj (h.symm.trans hnode')
  obtain ⟨q', rfl, hq⟩ : ∃ q', node = .statement (.query q') ∧ forget q' = forget q :=
    Node.exists_query_of_forget hforget.symm
  rw [← hq]
  exact exists_written hnode hopen

/-- A statement is read from a text that stands between words if it is read from all the words. -/
theorem readsAs_around (hbefore : ∀ more, Cursor.Spells (before.toList ++ more) vs more)
    (hws : AreTokens ws) (htape : forget (Tape.ofString text) = .ofWords ws)
    (hrest : AreTokens rest) (hbehind : behind = "\n" ++ " ".intercalate rest)
    (hread : ∀ bound, (vs ++ (ws ++ rest)).length < bound →
      (soleStatement (.outermost bound)).Reads (.ofWords (vs ++ (ws ++ rest))) (.statement s)
        (.ofWords [])) :
  ReadsAs (before ++ text ++ behind) s
  := .of_words (Tape.forget_around hbefore hws htape hrest hbehind) hread

section

variable (hws : AreTokens ws) (htape : forget (Tape.ofString text) = .ofWords ws)

include hws htape

theorem readsAs_export (hq : q.Written maxNesting ws) :
  ReadsAs ("EXPORT " ++ text ++ "\nTO 'p'") (.exportRows q.exported)
  := by
  have hbefore : ∀ more, Cursor.Spells ("EXPORT ".toList ++ more) ["EXPORT"] more :=
    Cursor.spells_words (areTokens_samples (by decide))
  have hrest : AreTokens ["TO", "'p'"] := areTokens_samples (by decide)
  apply readsAs_around hbefore hws htape hrest (by decide)
  intro bound hbound
  simp only [List.length_append, List.length_cons] at hbound
  exact reads_soleExport_words hq (by omega)

theorem readsAs_merge (hq : q.Written maxNesting ws) :
  ReadsAs ("MERGE INTO t USING (" ++ text ++ "\n) s ON a = b WHEN MATCHED THEN DELETE")
    (.merge q.merged)
  := by
  have hvs : AreTokens ["MERGE", "INTO", "t", "USING"] := areTokens_samples (by decide)
  have hrest : AreTokens mergeWords := areTokens_samples (by decide)
  apply readsAs_around (Cursor.spells_opening hvs (by decide)) hws htape hrest (by decide)
  intro bound hbound
  simp only [List.length_append, List.length_cons] at hbound
  exact reads_soleMerge_words hq (by omega)

theorem readsAs_exist (hq : q.Written (maxNesting - 2) ws) :
  ReadsAs ("SELECT EXISTS (" ++ text ++ "\n)") (.query (.ofSelect [] (.single q.exist [])))
  := by
  have hvs : AreTokens ["SELECT", "EXISTS"] := areTokens_samples (by decide)
  have hrest : AreTokens [")"] := areTokens_samples (by decide)
  apply readsAs_around (Cursor.spells_opening hvs (by decide)) hws htape hrest (by decide)
  intro bound hbound
  simp only [List.length_append, List.length_cons] at hbound
  exact reads_soleExist_words hq (by omega)

theorem readsAs_named (hq : q.Written (maxNesting - 1) ws) :
  ReadsAs ("WITH x AS (" ++ text ++ "\n) SELECT 1")
    (.query (.ofSelect [q.withName "x"] (.single .one [])))
  := by
  have hvs : AreTokens ["WITH", "x", "AS"] := areTokens_samples (by decide)
  have hrest : AreTokens [")", "SELECT", "1"] := areTokens_samples (by decide)
  apply readsAs_around (Cursor.spells_opening hvs (by decide)) hws htape hrest (by decide)
  intro bound hbound
  simp only [List.length_append, List.length_cons] at hbound
  exact reads_soleNamed_words hq (by omega)

end

/-- **Queries mean the same wherever they stand.**  A text that is read as a query, and does not end
with a semicolon, is read as this query, up to positions, in an export and in a merge; and in a test
for rows and with a name, if it leaves two levels of nesting. -/
theorem parseStatement_embedded (h : parseStatement text = .ok (.statement (.query q)))
    (hopen : isComplete text = false) :
  ReadsAs ("EXPORT " ++ text ++ "\nTO 'p'") (.exportRows (forget q).exported) ∧
  ReadsAs ("MERGE INTO t USING (" ++ text ++ "\n) s ON a = b WHEN MATCHED THEN DELETE")
    (.merge (forget q).merged) ∧
  (leavesLevels text 2 →
    ReadsAs ("SELECT EXISTS (" ++ text ++ "\n)")
      (.query (.ofSelect [] (.single (forget q).exist []))) ∧
    ReadsAs ("WITH x AS (" ++ text ++ "\n) SELECT 1")
      (.query (.ofSelect [(forget q).withName "x"] (.single .one []))))
  := by
  obtain ⟨ws, hws, htape, -, hq⟩ :=
    Query.exists_written_above h hopen (leavesLevels_zero h) (Nat.le_refl _) (Nat.le_refl _)
  refine ⟨readsAs_export hws htape hq, readsAs_merge hws htape hq, ?_⟩
  intro hleaves
  constructor
  · obtain ⟨ws, hws, htape, -, hq⟩ :=
      Query.exists_written_above h hopen hleaves (Nat.le_refl _) (Nat.sub_le _ _)
    exact readsAs_exist hws htape hq
  · obtain ⟨ws, hws, htape, -, hq⟩ :=
      Query.exists_written_above h hopen hleaves (Nat.sub_le_sub_left (Nat.le_succ 1) _)
        (Nat.sub_le _ _)
    exact readsAs_named hws htape hq

/-- A query with a comment at its end, where `TO` might continue an interval. -/
theorem parseStatement_embedded_interval :
  ∃ q, parseStatement "SELECT INTERVAL '1' DAY -- one" = .ok (.statement (.query q)) ∧
    ReadsAs ("EXPORT " ++ "SELECT INTERVAL '1' DAY -- one" ++ "\nTO 'p'")
      (.exportRows (forget q).exported) ∧
    ReadsAs ("WITH x AS (" ++ "SELECT INTERVAL '1' DAY -- one" ++ "\n) SELECT 1")
      (.query (.ofSelect [(forget q).withName "x"] (.single .one [])))
  := by
  obtain ⟨hquery, hopen, hleaves⟩ : isQuery "SELECT INTERVAL '1' DAY -- one" ∧
      isComplete "SELECT INTERVAL '1' DAY -- one" = false ∧
      leavesLevels "SELECT INTERVAL '1' DAY -- one" 2 := by decide +kernel
  obtain ⟨q, h⟩ := exists_of_isQuery hquery
  obtain ⟨hexport, -, hinner⟩ := parseStatement_embedded h hopen
  exact ⟨q, h, hexport, (hinner hleaves).2⟩

end SqlFront
