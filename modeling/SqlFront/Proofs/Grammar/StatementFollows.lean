import SqlFront.Grammar.Statement
import SqlFront.Proofs.Grammar.QueryFollows

/-!
# Statements wherever they lie

The productions of statements follow each other if those nested in them do.
-/

namespace SqlFront.Grammar

open Production

variable {c : Embedding} {limit n n' : Nat}

/-! ### Words -/

theorem nextIsWord_bind_ite {α : Type} {p q : Production α} {word : String} :
  (nextIsWord word >>= fun a => if a then p else q) =
    peek >>= fun t => if t.isWord word then p else q
  := rfl

/-- Where the next token is the word that is asked for, it has been looked at. -/
theorem follows_nextIsWord_bind_ite {α : Type} [Movable α] {p p' q q' : Production α}
    {word : String} (hp : FollowsAt c limit [.identifier] p p') (hq : Follows c limit q q') :
  Follows c limit (nextIsWord word >>= fun a => if a then p else q)
    (nextIsWord word >>= fun a => if a then p' else q')
  := by
  rw [nextIsWord_bind_ite, nextIsWord_bind_ite]
  apply follows_peek_bind
  intro t
  apply follows_ite_of
  · intro hword
    rw [Token.kind_of_isWord hword]
    apply hp
  · intro _
    apply hq.seen

theorem expectWord_follows (word : String) :
  Natural c limit (expectWord word)
  := follows_nextIsWord_bind_ite (follows_advance rfl) (follows_expected _)

theorem allColumns_follows (fromSource : Bool) :
  Natural c limit (allColumns fromSource)
  := follows_ite (follows_accept rfl) (follows_pure rfl)

theorem clauseRows_follows :
  Natural c limit clauseRows
  := by
  apply (follows_accept rfl).bind_ite
  · apply (expectWord_follows _).bind
    intro t
    apply (follows_accept rfl).bind_ite
    · apply follows_nextIsWord_bind_ite
      · apply follows_advance_bind rfl
        intro u
        apply follows_pure rfl
      · apply follows_nextIsWord_bind_ite
        · apply follows_advance_bind rfl
          intro u
          apply follows_pure rfl
        · apply follows_expected
    · apply follows_pure rfl
  · apply (expectWord_follows _).bind
    intro t
    apply follows_pure rfl

/-! ### Loads and exports -/

theorem partitionEntry_follows (hn : Enough limit n n') :
  Follows c limit (partitionEntry n) (partitionEntry n')
  := by
  apply follows_here.bind
  intro start
  apply ident_follows.bind
  intro column
  apply ((constant_follows hn).afterToken? rfl).bind
  intro value
  apply (follows_spanFrom start).bind
  intro region
  apply follows_pure rfl

theorem partition?_follows (hn : Enough limit n n') :
  Follows c limit (partition? n) (partition? n')
  := by
  apply follows_here.bind
  intro start
  apply Follows.afterToken? _ rfl
  apply (follows_expect rfl).bind
  intro t
  apply ((partitionEntry_follows hn).commaList hn).bind
  intro entries
  apply (follows_expect rfl).bind
  intro u
  apply (follows_spanFrom start).bind
  intro region
  apply follows_pure rfl

theorem optionKey_follows (hn : Enough limit n n') :
  Follows c limit (optionKey n) (optionKey n')
  := by
  apply (follows_accept? rfl).bind
  intro o
  cases o with
  | some t => apply follows_pure rfl
  | none =>
      apply (qualifiedName_follows hn).bind
      intro name
      apply follows_pure
      simp [move, Function.comp_def]

theorem optionEntry_follows (hn : Enough limit n n') :
  Follows c limit (optionEntry n) (optionEntry n')
  := by
  apply follows_here.bind
  intro start
  apply (optionKey_follows hn).bind
  intro key
  apply (follows_spanFrom start).bind
  intro keySpan
  apply (follows_accept rfl).bind
  intro equals
  apply (constant_follows hn).bind
  intro value
  apply (follows_spanFrom start).bind
  intro region
  apply follows_pure rfl

theorem options?_follows (hn : Enough limit n n') :
  Follows c limit (options? n) (options? n')
  := by
  apply Follows.afterToken? _ rfl
  apply follows_here.bind
  intro start
  apply (follows_expect rfl).bind
  intro t
  apply ((optionEntry_follows hn).commaList hn).bind
  intro entries
  apply (follows_expect rfl).bind
  intro u
  apply (follows_spanFrom start).bind
  intro region
  apply follows_pure rfl

theorem load_follows (hn : Enough limit n n') :
  Follows c limit (load n) (load n')
  := by
  apply follows_here.bind
  intro start
  apply (follows_expect rfl).bind
  intro t
  apply (follows_expect rfl).bind
  intro u
  apply (follows_accept rfl).bind
  intro isLocal
  apply (follows_expect rfl).bind
  intro v
  apply (textConstant_follows hn).bind
  intro path
  apply (follows_accept rfl).bind
  intro overwrite
  apply (follows_expect rfl).bind
  intro w
  apply (follows_expect rfl).bind
  intro x
  apply (qualifiedName_follows hn).bind
  intro table
  apply (partition?_follows hn).bind
  intro partition
  apply (options?_follows hn).bind
  intro options
  apply (follows_spanFrom start).bind
  intro region
  apply follows_pure rfl

/-! ### Statements taken verbatim -/

/-- At the end of a tape, parentheses that are still open are missed. -/
theorem balanced_of_tokens_eq_nil {depth : Nat} (hdepth : depth ≠ 0) (m : Nat) (found : List Token)
    {s : Tape} (hs : s.tokens = []) :
  ∃ e s', (balanced m depth found).eval s = (.error e, s')
  := by
  have hpeek : s.peek 0 = s.stop.map .eof := by
    simp [Tape.peek, hs]
  obtain ⟨depth, rfl⟩ := Nat.exists_eq_succ_of_ne_zero hdepth
  cases m with
  | zero =>
      simp only [balanced, eval, hpeek]
      cases s.stop <;> exact ⟨_, _, rfl⟩
  | succ m =>
      simp only [balanced, eval_bind, peek, eval, Lookahead.distance, hpeek]
      cases hstop : s.stop with
      | error e => exact ⟨_, _, rfl⟩
      | ok p =>
          simp only [Except.map, Token.eof, expected, eval, hpeek, hstop]
          exact ⟨_, _, rfl⟩

/-- Semicolons between parentheses are taken too. -/
theorem balanced_follows (hn : Enough limit n n') (depth : Nat) (found : List Token) :
  Follows c limit (balanced n depth found) (balanced n' depth (move c.map found))
  := by
  induction limit generalizing n n' depth found with
  | zero => apply follows_zero
  | succ limit ih =>
      obtain ⟨n, n', rfl, rfl, hless⟩ := hn.exists_succ
      have hend : ∀ ks, FollowsAt c (limit + 1) ks (pure found.reverse : Production (List Token))
          (pure (move c.map found).reverse) := by
        intro ks
        apply follows_pure
        simp [move]
      apply follows_peek_bind
      intro t
      rw [Token.kind_move]
      split
      · apply hend
      · apply follows_expected
      · apply hend
      · apply follows_expected
      · apply follows_expected
      · next h =>
          rw [h]
          apply follows_advance_lt rfl
          intro u
          apply ih hless _ (u :: found)
      · next h =>
          rw [h]
          apply follows_advance_lt rfl
          intro u
          apply ih hless _ (u :: found)
      · next depth _ _ heof hunrecognized _ _ hsemicolon _ _ =>
          apply follows_take_of heof hunrecognized
          · intro u
            apply ih hless _ (u :: found)
          · intro _ hkind u s hs
            apply balanced_of_tokens_eq_nil (hsemicolon hkind) n _ hs

theorem verbatim_follows (hn : Enough limit n n') :
  Follows c limit (verbatim n) (verbatim n')
  := by
  apply follows_peek_bind
  intro t
  apply (balanced_follows hn 0 []).bind
  intro tokens
  apply (follows_spanFrom t.span.start).bind
  intro region
  apply follows_pure rfl

theorem theEnd_follows :
  Natural c limit theEnd
  := (follows_nextIs _).bind_ite (follows_pure rfl) (follows_expected _)

/-! ### Merges -/

variable {inner inner' : Inner} (hin : inner.Follows c limit inner')

include hin

theorem assignment_follows :
  Follows c limit (assignment inner) (assignment inner')
  := by
  apply follows_here.bind
  intro start
  apply (qualifiedName_follows hin.bound).bind
  intro target
  apply (follows_expect rfl).bind
  intro t
  apply hin.expression.bind
  intro value
  apply (follows_spanFrom start).bind
  intro region
  apply follows_pure rfl

theorem changeAction_follows (fromSource : Bool) :
  Follows c limit (changeAction inner fromSource) (changeAction inner' fromSource)
  := by
  apply (follows_accept rfl).bind_ite
  · apply follows_pure rfl
  · apply follows_nextIsWord_bind_ite
    · apply follows_advance_bind rfl
      intro t
      apply (follows_expect rfl).bind
      intro u
      apply (allColumns_follows _).bind_ite
      · apply follows_pure rfl
      · apply ((assignment_follows hin).commaList hin.bound).bind
        intro assignments
        apply follows_pure rfl
    · apply follows_expected

theorem insertAction_follows :
  Follows c limit (insertAction inner) (insertAction inner')
  := by
  apply (follows_expect rfl).bind
  intro t
  apply (follows_accept rfl).bind_ite
  · apply follows_pure rfl
  · apply (columns_follows hin.bound).bind
    intro columns
    apply (follows_expect rfl).bind
    intro u
    apply (follows_expect rfl).bind
    intro v
    apply (expressionsToParen_follows hin).bind
    intro values
    apply follows_pure rfl

theorem clause_follows :
  Follows c limit (clause inner) (clause inner')
  := by
  apply follows_here.bind
  intro start
  apply (follows_expect rfl).bind
  intro t
  apply clauseRows_follows.bind
  intro rows
  apply (hin.expression.afterToken? rfl).bind
  intro condition
  apply (follows_expect rfl).bind
  intro u
  have hend : ∀ action : Action, Follows c limit
      (do return ⟨rows, condition, action, ← spanFrom start⟩ : Production Clause)
      (do return ⟨rows, move c.map condition, move c.map action, ← spanFrom (move c.map start)⟩) := by
    intro action
    apply (follows_spanFrom start).bind
    intro region
    apply follows_pure rfl
  cases rows with
  | notMatched =>
      apply (insertAction_follows hin).bind
      intro action
      apply hend
  | matched =>
      apply (changeAction_follows hin true).bind
      intro action
      apply hend
  | notMatchedBySource =>
      apply (changeAction_follows hin false).bind
      intro action
      apply hend

omit hin in
theorem clause_consumes (inner : Inner) :
  (clause inner).Consumes
  := by
  apply consumes_bind
  intro start
  apply (expect_consumes (by simp)).bind

theorem mergeSource_follows :
  Follows c limit (mergeSource inner) (mergeSource inner')
  := by
  apply (follows_accept rfl).bind_ite
  · apply (queryToParen_follows hin).bind
    intro q
    apply follows_pure rfl
  · apply (qualifiedName_follows hin.bound).bind
    intro name
    apply follows_pure rfl

theorem clauses_follows :
  Follows c limit (clauses inner) (clauses inner')
  := by
  apply Follows.bind (α := List Clause)
  · apply Follows.collect _ _ hin.bound rfl
    · apply (follows_nextIs _).bind_ite (clause_follows hin).some
      apply follows_pure rfl
    · apply progresses_bind
      intro b
      apply progresses_ite (clause_consumes inner).some progresses_none
  · intro found
    cases found with
    | nil => apply follows_expected
    | cons c found => apply follows_pure rfl

theorem merge_follows :
  Follows c limit (merge inner) (merge inner')
  := by
  apply follows_here.bind
  intro start
  apply (follows_expect rfl).bind
  intro t
  apply (follows_expect rfl).bind
  intro u
  apply (qualifiedName_follows hin.bound).bind
  intro target
  apply label?_follows.bind
  intro targetLabel
  apply (follows_expect rfl).bind
  intro v
  apply (mergeSource_follows hin).bind
  intro source
  apply label?_follows.bind
  intro sourceLabel
  apply (follows_expect rfl).bind
  intro w
  apply hin.expression.bind
  intro condition
  apply (clauses_follows hin).bind
  intro clauses
  apply (follows_spanFrom start).bind
  intro region
  apply follows_pure rfl

theorem exportRows_follows :
  Follows c limit (exportRows inner) (exportRows inner')
  := by
  apply follows_here.bind
  intro start
  apply (follows_expect rfl).bind
  intro t
  apply hin.query.bind
  intro q
  apply (follows_expect rfl).bind
  intro u
  apply (textConstant_follows hin.bound).bind
  intro path
  apply (ident_follows.afterToken? rfl).bind
  intro format
  apply (options?_follows hin.bound).bind
  intro options
  apply (follows_spanFrom start).bind
  intro region
  apply follows_pure rfl

/-! ### Statements -/

theorem statement_follows :
  Follows c limit (statement inner) (statement inner')
  := by
  have hquery : Follows c limit (do return .query (← inner.query) : Production Statement)
      (do return .query (← inner'.query) : Production Statement) := by
    apply hin.query.bind
    intro q
    apply follows_pure rfl
  have hverbatim : Follows c limit
      (do return .verbatim (← verbatim inner.bound) : Production Statement)
      (do return .verbatim (← verbatim inner'.bound) : Production Statement) := by
    apply (verbatim_follows hin.bound).bind
    intro v
    apply follows_pure rfl
  apply follows_peek_bind
  intro t
  rw [Token.kind_move]
  split
  · apply (merge_follows hin).bind
    intro m
    apply follows_pure rfl
  · apply (load_follows hin.bound).bind
    intro l
    apply follows_pure rfl
  · apply (exportRows_follows hin).bind
    intro e
    apply follows_pure rfl
  · apply hquery.seen
  · apply hquery.seen
  · apply hquery.seen
  · apply hquery.seen
  · apply hquery.seen
  · apply hverbatim.seen
  · apply hverbatim.seen
  · apply hverbatim.seen
  · apply hverbatim.seen
  · apply follows_expected

theorem soleStatement_follows (hc : c.total) :
  Follows c limit (soleStatement inner) (soleStatement inner')
  := by
  apply (statement_follows hin).bind
  intro s
  have hend : Follows c limit (do theEnd; return .statement s : Production Node)
      (do theEnd; return .statement (move c.map s) : Production Node) := by
    apply theEnd_follows.bind
    intro _
    apply follows_pure rfl
  apply follows_accept_bind hc (by simp) (by simp) (hend.mono (Nat.sub_le limit 1)) hend

/-- Scripts follow each other where readings that fail are compared. -/
theorem statements_follows (hc : c.total) (hn : Enough limit n n') (found : List Node) :
  Follows c limit (statements inner n found) (statements inner' n' (move c.map found))
  := by
  induction limit generalizing n n' found with
  | zero => apply follows_zero
  | succ limit ih =>
      obtain ⟨n, n', rfl, rfl, hless⟩ := hn.exists_succ
      have hbehind := hin.mono (Nat.le_succ limit)
      apply follows_peek_bind
      intro t
      rw [Token.kind_move]
      split
      · apply follows_pure
        simp [move]
      · next h =>
          rw [h]
          apply follows_take_of (by simp) (by simp)
          · intro _
            apply ih hbehind hless
          · intro htotal
            contradiction
      · apply (statement_follows hin).bind
        intro s
        apply follows_accept_bind hc (by simp) (by simp)
        · apply ih hbehind hless
        · apply theEnd_follows.bind
          intro _
          apply follows_pure
          simp [move, Node.move]

theorem soleExpression_follows :
  Follows c limit (soleExpression inner) (soleExpression inner')
  := by
  apply hin.expression.bind
  intro e
  apply theEnd_follows.bind
  intro _
  apply follows_pure rfl

end SqlFront.Grammar
