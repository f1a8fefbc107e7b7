import SqlFront.Proofs.Grammar.StatementFollows
import SqlFront.Proofs.Grammar.StatementObeys
import SqlFront.Proofs.Nesting.Depth
import SqlFront.Proofs.Nesting.Heights

/-!
# The limit of nesting

No statement is read in which more parentheses are open at once than the levels of nesting and a few
more, those apart that hold a relation at the right of a join; and a text that would be read if more
levels were allowed, but has more parentheses open at once, is refused because of its nesting.

The first follows from the heights of the rules.  For the second, the productions that may be nested
deeper are compared with those that may not: they give the same or give up because of the nesting.
-/

namespace SqlFront

namespace Grammar

/-! ### Heights of statements -/

namespace Rules

variable {h : Nat} {G : Rules} (hG : G.Fit h)

include hG

theorem assignmentRule_fits :
  RuleFits h G.AssignmentRule
  := by
  rintro _ _ ⟨isTarget, isValue⟩ joined
  apply (NameRule.fits _ _ isTarget _).append
  apply hG.expression.after rfl _ _ isValue

theorem actionRule_fits :
  RuleFits (h + 1) G.ActionRule
  := by
  rintro _ _ (words | words | ⟨words, areAssignments⟩ | words | ⟨word, areColumns, areValues⟩) joined
  · apply words.fits
  · apply words.fits
  · apply words.fits.append
    apply ((assignmentRule_fits hG).separated rfl).mono (Nat.le_succ h) _ _ areAssignments
  · apply words.fits
  · apply Fits.append
    · apply Fits.cons (by rw [word]; rfl)
      apply IdentsRule.fits.listed _ _ areColumns
    · apply (expressionsRule_fits hG).enclosed.after rfl _ _ areValues

theorem clauseRule_fits :
  RuleFits (h + 1) G.ClauseRule
  := by
  rintro _ _ ⟨opens, words, isCondition, leads, isAction⟩ joined
  rw [List.append_assoc]
  apply Fits.append
  · apply Fits.cons (by rw [opens]; rfl) words.fits
  intro joined
  apply ((hG.expression.after rfl).possible.mono (Nat.le_succ h) _ _ isCondition _).append
  intro joined
  apply Fits.cons (by rw [leads]; rfl)
  apply actionRule_fits hG _ _ isAction

theorem mergeSourceRule_fits :
  RuleFits (h + 1) G.MergeSourceRule
  := by
  rintro _ _ (inside | isName)
  · apply hG.query.enclosed _ _ inside
  · apply NameRule.fits _ _ isName

theorem mergeRule_fits :
  RuleFits (h + 1) G.MergeRule
  := by
  rintro _ _ ⟨opens, isTarget, isTargetLabel, isSource, isSourceLabel, isCondition, areClauses, -⟩
    joined
  rw [List.append_assoc, List.append_assoc, List.append_assoc, List.append_assoc]
  apply Fits.append
  · apply Fits.cons (by rw [opens]; rfl)
    apply NameRule.fits.after rfl _ _ isTarget
  intro joined
  apply (LabelRule.fits.possible _ _ isTargetLabel _).append
  intro joined
  apply ((mergeSourceRule_fits hG).after rfl _ _ isSource _).append
  intro joined
  apply (LabelRule.fits.possible _ _ isSourceLabel _).append
  intro joined
  apply ((hG.expression.after rfl).mono (Nat.le_succ h) _ _ isCondition _).append
  apply (clauseRule_fits hG).repeated _ _ areClauses

omit hG in
theorem constantRule_fits :
  RuleFits h ConstantRule
  := by
  rintro _ _ ⟨literal⟩ joined
  apply literal.2.fits

omit hG in
theorem optionsRule_fits :
  RuleFits (h + 1) OptionsRule
  := by
  have hkey : RuleFits h OptionKeyRule := by
    rintro _ _ (isString | isName) joined
    · apply Fits.cons (by rw [isString]; rfl) fits_nil
    · apply NameRule.fits _ _ isName
  have hentry : RuleFits h OptionEntryRule := by
    rintro _ _ ⟨isKey, words, isValue⟩ joined
    apply ((hkey _ _ isKey _).append fun _ => words.fits).append
    apply constantRule_fits _ _ isValue
  rintro _ _ ⟨opens, areEntries⟩ joined
  apply Fits.cons (by rw [opens]; rfl)
  apply (hentry.separated rfl).enclosed _ _ areEntries

theorem exportRule_fits :
  RuleFits (h + 1) G.ExportRule
  := by
  rintro _ _ ⟨opens, isQuery, isPath, isFormat, areOptions⟩ joined
  rw [List.append_assoc, List.append_assoc]
  apply Fits.append
  · apply Fits.cons (by rw [opens]; rfl)
    apply hG.query.mono (Nat.le_succ h) _ _ isQuery
  intro joined
  apply (constantRule_fits.after rfl _ _ isPath _).append
  intro joined
  apply ((IdentRule.fits.after rfl).possible _ _ isFormat _).append
  apply optionsRule_fits.possible _ _ areOptions

theorem statementRule_fits {s : Statement} {u : List Token} (hu : G.StatementRule s u)
    (hs : s.nests) (joined : Bool) :
  Fits (h + 1) joined u
  := by
  cases hu with
  | merge isMerge => apply mergeRule_fits hG _ _ isMerge
  | exportRows isExport => apply exportRule_fits hG _ _ isExport
  | query isQuery => apply hG.query.mono (Nat.le_succ h) _ _ isQuery
  | load => contradiction
  | verbatim => contradiction

theorem soleRule_fits {s : Statement} {u : List Token} (hu : G.SoleRule s u) (hs : s.nests)
    (joined : Bool) :
  Fits (h + 1) joined u
  := by
  cases hu with
  | bare only => apply statementRule_fits hG only hs
  | ended only ending =>
      apply (statementRule_fits hG only hs joined).append
      intro joined
      apply Fits.cons (by rw [ending]; rfl) fits_nil

end Rules

/-! ### Giving up -/

open Production

section

variable (inner : Inner)

theorem expression_looksFirst :
  (expression inner).LooksFirst
  := (((looksFirst_look _).bind _).bind _).bind _

theorem negation_looksFirst :
  (negation inner).LooksFirst
  := (looksFirst_look _).bind _

theorem signed_looksFirst :
  (signed inner).LooksFirst
  := (looksFirst_look _).bind _

theorem query_looksFirst :
  (query inner).LooksFirst
  := (looksFirst_look _).bind _

theorem primary_looksFirst :
  (primary inner).LooksFirst
  := by
  unfold primary
  cases inner.bound with
  | zero => apply looksFirst_fail
  | succ n => exact (looksFirst_look _).bind _

theorem dataType_looksFirst :
  (dataType inner).LooksFirst
  := ((looksFirst_look _).bind _).bind _

end

/-- Giving up because of the nesting follows whatever is nested. -/
theorem nested_follows_tooDeep {f : Position → Position} (bound levels : Nat) :
  (Inner.nested bound levels).Follows (.moved f (· = .tooDeep)) bound (.tooDeep bound)
  := by
  have hfail : ∀ {α : Type} [Movable α] {p : Production α}, p.LooksFirst →
      Follows (.moved f (· = .tooDeep)) bound p (.fail fun _ => .tooDeep) :=
    fun h => h.follows_fail fun _ => rfl
  cases levels with
  | zero =>
      have h : ∀ {α : Type}, (Production.fail (α := α) fun _ => .tooDeep).LooksFirst :=
        looksFirst_fail _
      exact ⟨.refl bound, hfail h, hfail h, hfail h, hfail h, hfail h, hfail h⟩
  | succ levels =>
      constructor
      · apply Enough.refl
      · apply hfail (expression_looksFirst _)
      · apply hfail (negation_looksFirst _)
      · apply hfail (signed_looksFirst _)
      · apply hfail (query_looksFirst _)
      · apply hfail (primary_looksFirst _)
      · apply hfail (dataType_looksFirst _)

/-- With fewer levels of nesting, productions give the same or give up because of the nesting. -/
theorem nested_follows_of_le {f : Position → Position} {few many : Nat} (bound : Nat)
    (h : few ≤ many) :
  (Inner.nested bound many).Follows (.moved f (· = .tooDeep)) bound (Inner.nested bound few)
  := by
  induction few generalizing many with
  | zero => apply nested_follows_tooDeep
  | succ few ih =>
      obtain ⟨many, rfl⟩ : ∃ m, many = m + 1 := ⟨many - 1, by omega⟩
      apply Inner.nested_follows (.refl bound)
      apply ih (Nat.le_of_succ_le_succ h)

end Grammar

/-! ### Texts -/

open Grammar

/-- In a text that is read as a statement, few parentheses are open at once, those apart that hold a
relation at the right of a join. -/
theorem plainDepth_le_of_parseStatement {text : String} {s : Statement}
    (h : parseStatement text = .ok (.statement s)) (hs : s.nests) :
  ∃ ts, Token.list text = .ok ts ∧ ∀ point ∈ openings false [] (ts.filter (·.isVisible)),
    plainDepth point ≤ maxNesting + 2
  := by
  obtain ⟨ts, a, hts, ha, hrule⟩ := rule_of_parseStatement h
  obtain rfl : s = a := by simpa using ha
  use ts, hts
  intro point hpoint
  have hfits := Rules.soleRule_fits (Rules.within_fit maxNesting) hrule hs false
  simpa using hfits.plainDepth_le [] point hpoint

/-- With fewer levels of nesting, a text is read in the same way or refused because of its
nesting. -/
theorem parseStatementWithin_of_le {few many : Nat} (text : String) (h : few ≤ many) :
  parseStatementWithin few text = move id (parseStatementWithin many text) ∨
    ∃ e, parseStatementWithin few text = .error e ∧ e.cause = .tooDeep
  := by
  let s := Stream.ofString text
  rw [parseStatementWithin_eq, parseStatementWithin_eq]
  have hfollows := (soleStatement_follows (nested_follows_of_le (f := id) (s.size + 1) h)
    trivial).eval_move s.length_tape_lt
  rw [Tape.move_id] at hfollows
  rcases hfollows with heq | ⟨e, s', heq, he⟩
  · left
    exact congrArg Prod.fst heq
  · right
    exact ⟨e, congrArg Prod.fst heq, he⟩

/-- What is read with some number of levels is read with more of them, up to positions. -/
theorem parseStatementWithin_mono {few many : Nat} {text : String} {node : Node} (h : few ≤ many)
    (hnode : parseStatementWithin few text = .ok node) :
  ∃ node', parseStatementWithin many text = .ok node' ∧ forget node' = forget node
  := by
  let s := Stream.ofString text
  rw [parseStatementWithin_eq] at hnode ⊢
  have hin : (Inner.nested (s.size + 1) few).Follows (.moved (fun _ => .start) fun _ => False)
      (s.size + 1) (.nested (s.size + 1) few) := Inner.nested_natural (.refl _) few
  have hfew := ((soleStatement_follows hin trivial).eval_move s.length_tape_lt).resolve_right
    fun ⟨_, _, _, hfalse⟩ => hfalse
  have hmany := (soleStatement_follows
    (nested_follows_of_le (f := fun _ => .start) (s.size + 1) h) trivial).eval_move s.length_tape_lt
  have hread : ((soleStatement (.nested (s.size + 1) few)).eval (forget s.tape)).1 =
      .ok (forget node) := by
    rw [hfew]
    exact congrArg forget hnode
  rcases hmany with heq | ⟨e, s', heq, -⟩
  · rw [heq] at hread
    change forget ((soleStatement (.nested (s.size + 1) many)).eval s.tape).1 = _ at hread
    change ∃ node', ((soleStatement (.nested (s.size + 1) many)).eval s.tape).1 = .ok node' ∧ _
    cases hresult : ((soleStatement (.nested (s.size + 1) many)).eval s.tape).1 with
    | error e =>
        rw [hresult] at hread
        contradiction
    | ok node' =>
        rw [hresult] at hread
        exact ⟨node', rfl, Except.ok.inj hread⟩
  · rw [heq] at hread
    contradiction

/-- A text that is read as a statement with some number of levels is read as a statement of the same
sort with the levels of the grammar, or it is refused because of its nesting. -/
theorem parseStatement_of_within {text : String} {levels : Nat} {s : Statement}
    (h : parseStatementWithin levels text = .ok (.statement s)) :
  (∃ s', parseStatement text = .ok (.statement s') ∧ s'.nests = s.nests) ∨
    ∃ e, parseStatement text = .error e ∧ e.cause = .tooDeep
  := by
  have hmax : parseStatement text = parseStatementWithin maxNesting text := rfl
  rcases Nat.le_total maxNesting levels with hle | hle
  · rcases parseStatementWithin_of_le text hle with heq | herror
    · left
      use move id s
      constructor
      · rw [hmax, heq, h]
        rfl
      · apply Statement.nests_move
    · right
      rw [hmax]
      apply herror
  · left
    rcases parseStatementWithin_of_le text hle with heq | ⟨e, herror, -⟩
    · rw [h] at heq
      rw [hmax]
      rcases hread : parseStatementWithin maxNesting text with e | a | e
      · simp [hread, move] at heq
      · use a, rfl
        rw [hread] at heq
        obtain rfl : s = move id a := by simpa [move, Node.move] using heq
        exact (Statement.nests_move id a).symm
      · simp [hread, move, Node.move] at heq
    · simp [h] at herror

/-- **The limit of nesting.**  In a text that is read as a statement in which expressions and queries
nest, never more than `maxNesting + 4` parentheses are open at once, if those are not counted that
directly follow `JOIN` and hold no query.  A text that has more open at once and would be read as
such a statement with some other limit is refused because its nesting is too deep. -/
theorem plainDepth_limited (text : String) :
  (∀ s, parseStatement text = .ok (.statement s) → s.nests →
    ∃ ts, Token.list text = .ok ts ∧ ∀ point ∈ openings false [] (ts.filter (·.isVisible)),
      plainDepth point ≤ maxNesting + 4) ∧
  ∀ levels s ts, parseStatementWithin levels text = .ok (.statement s) → s.nests →
    Token.list text = .ok ts →
    (∃ point ∈ openings false [] (ts.filter (·.isVisible)), maxNesting + 4 < plainDepth point) →
    ∃ e, parseStatement text = .error e ∧ e.cause.message = "expression nesting too deep"
  := by
  constructor
  · intro s h hs
    obtain ⟨ts, hts, hle⟩ := plainDepth_le_of_parseStatement h hs
    use ts, hts
    intro point hpoint
    exact Nat.le_trans (hle point hpoint) (Nat.add_le_add_left (by decide) maxNesting)
  · rintro levels s ts h hs hts ⟨point, hpoint, hdeep⟩
    rcases parseStatement_of_within h with ⟨s', h', hs'⟩ | ⟨e, herror, he⟩
    · rw [hs] at hs'
      obtain ⟨ts', hts', hle⟩ := plainDepth_le_of_parseStatement h' hs'
      rw [hts, Except.ok.injEq] at hts'
      subst hts'
      have := hle point hpoint
      omega
    · use e, herror
      rw [he]
      rfl

/-- A query with many joins is read within the limit, and one with as many parentheses around an
expression is refused, which would be read with some more levels. -/
theorem plainDepth_limited_forty :
  (∃ s ts, parseStatement (" ".intercalate (joinQueryWords 40)) = .ok (.statement s) ∧ s.nests ∧
    Token.list (" ".intercalate (joinQueryWords 40)) = .ok ts ∧
    ∀ point ∈ openings false [] (ts.filter (·.isVisible)), plainDepth point ≤ maxNesting + 4) ∧
  (∃ s ts, parseStatementWithin 42 (" ".intercalate (parenQueryWords 40)) = .ok (.statement s) ∧
    s.nests ∧ Token.list (" ".intercalate (parenQueryWords 40)) = .ok ts ∧
    ∃ point ∈ openings false [] (ts.filter (·.isVisible)), maxNesting + 4 < plainDepth point) ∧
  ∃ e, parseStatement (" ".intercalate (parenQueryWords 40)) = .error e ∧
    e.cause.message = "expression nesting too deep"
  := by
  obtain ⟨s, ts, hs, hnests, hts, point, hpoint, hdepth⟩ := parens_read 40
  have hdeep : ∃ point ∈ openings false [] (ts.filter (·.isVisible)),
      maxNesting + 4 < plainDepth point := by
    use point, hpoint
    rw [hdepth]
    decide
  obtain ⟨s', ts', hs', hnests', hts', -⟩ := joins_unlimited 40
  obtain ⟨ts'', hts'', hle⟩ := (plainDepth_limited _).1 s' hs' hnests'
  rw [hts', Except.ok.injEq] at hts''
  subst hts''
  exact ⟨⟨s', ts', hs', hnests', hts', hle⟩, ⟨s, ts, hs, hnests, hts, hdeep⟩,
    (plainDepth_limited _).2 42 s ts hs hnests hts hdeep⟩

/-- If the parentheses that directly follow `JOIN` are counted too, more can be open at once. -/
theorem joins_exceed_limit :
  ∃ s ts, parseStatement (" ".intercalate (joinQueryWords 40)) = .ok (.statement s) ∧ s.nests ∧
    Token.list (" ".intercalate (joinQueryWords 40)) = .ok ts ∧
    ∃ point ∈ openings false [] (ts.filter (·.isVisible)), maxNesting + 4 < point.length
  := by
  obtain ⟨s, ts, hs, hnests, hts, point, hpoint, hlength⟩ := joins_unlimited 40
  refine ⟨s, ts, hs, hnests, hts, point, hpoint, ?_⟩
  rw [hlength]
  decide

end SqlFront
