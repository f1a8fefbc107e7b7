import SqlFront.Proofs.Grammar.QueryTidy
import SqlFront.Proofs.Grammar.StatementFollows
import SqlFront.Proofs.Grammar.StatementObeys

/-!
# Statements are tidy

The production of statements is tidy.  Those that read a whole text look for its end and take the
semicolons between statements; they locate their faults.
-/

namespace SqlFront.Grammar

open Production

/-! ### Words of merges -/

theorem not_isWord_of_ends {t : Token} (h : t.kind.ends) (word : String) :
  ¬ t.isWord word
  := by
  rcases Kind.ends_iff.mp h with h | h <;> simp [Token.isWord, h]

/-- Where the next token is the word that is asked for, it has been looked at. -/
theorem tidy_nextIsWord_bind_ite {α : Type} {p q : Production α} {word : String}
    (hp : TidyAt [.identifier] p) (hq : q.Tidy) :
  Tidy (nextIsWord word >>= fun a => if a then p else q)
  := by
  rw [nextIsWord_bind_ite]
  apply tidy_peek_bind q
  · intro t
    apply tidy_ite_of
    · intro hword
      rw [Token.kind_of_isWord hword]
      apply hp
    · intro _
      apply hq.seen
  · exact fun t ht => if_neg (not_isWord_of_ends ht word)

theorem expectWord_tidy (word : String) :
  (expectWord word).Tidy
  := tidy_nextIsWord_bind_ite (tidy_take (by simp) fun _ _ => tidy_pure _) (tidy_expected _)

theorem allColumns_tidy (fromSource : Bool) :
  (allColumns fromSource).Tidy
  := tidy_ite (tidy_accept rfl) (tidy_pure _)

theorem clauseRows_tidy :
  clauseRows.Tidy
  := by
  apply (tidy_accept rfl).bind_ite
  · apply (expectWord_tidy _).bind
    intro t
    apply (tidy_accept rfl).bind_ite
    · apply tidy_nextIsWord_bind_ite
      · apply tidy_advance_bind (by simp)
        intro u
        apply tidy_pure
      · apply tidy_nextIsWord_bind_ite
        · apply tidy_advance_bind (by simp)
          intro u
          apply tidy_pure
        · apply tidy_expected
    · apply tidy_pure
  · apply (expectWord_tidy _).bind
    intro t
    apply tidy_pure

/-! ### Loads and exports -/

theorem partitionEntry_tidy (n : Nat) :
  (partitionEntry n).Tidy
  := by
  apply tidy_here_bind
  · intro start
    apply ident_consumes.bind
  · intro start
    apply ident_tidy.bind
    intro column
    apply ((constant_tidy n).afterToken? rfl).bind
    intro value
    apply (tidy_spanFrom start).bind
    intro region
    apply tidy_pure

theorem partition?_tidy (n : Nat) :
  (partition? n).Tidy
  := by
  apply tidy_here_bind_of
  · intro start start'
    apply afterToken?_idle (by simp)
  · intro start
    apply Tidy.afterToken? _ rfl
    apply (tidy_expect rfl).bind
    intro t
    apply ((partitionEntry_tidy n).commaList n).bind
    intro entries
    apply (tidy_expect rfl).bind
    intro u
    apply (tidy_spanFrom start).bind
    intro region
    apply tidy_pure

theorem optionKey_consumes (n : Nat) :
  (optionKey n).Consumes
  := Obeys.consumes (optionKey_obeys n) fun _ _ => OptionKeyRule.ne_nil

theorem optionKey_tidy (n : Nat) :
  (optionKey n).Tidy
  := by
  apply (tidy_accept? rfl).bind
  intro o
  cases o with
  | some t => apply tidy_pure
  | none =>
      apply (qualifiedName_tidy n).bind
      intro name
      apply tidy_pure

theorem optionEntry_tidy (n : Nat) :
  (optionEntry n).Tidy
  := by
  apply tidy_here_bind
  · intro start
    apply (optionKey_consumes n).bind
  · intro start
    apply (optionKey_tidy n).bind
    intro key
    apply (tidy_spanFrom start).bind
    intro keySpan
    apply (tidy_accept rfl).bind
    intro equals
    apply (constant_tidy n).bind
    intro value
    apply (tidy_spanFrom start).bind
    intro region
    apply tidy_pure

theorem options?_tidy (n : Nat) :
  (options? n).Tidy
  := by
  apply Tidy.afterToken? _ rfl
  apply tidy_here_bind
  · intro start
    apply (expect_consumes (by simp)).bind
  · intro start
    apply (tidy_expect rfl).bind
    intro t
    apply ((optionEntry_tidy n).commaList n).bind
    intro entries
    apply (tidy_expect rfl).bind
    intro u
    apply (tidy_spanFrom start).bind
    intro region
    apply tidy_pure

theorem load_tidy (n : Nat) :
  (load n).Tidy
  := by
  apply tidy_here_bind
  · intro start
    apply (expect_consumes (by simp)).bind
  · intro start
    apply (tidy_expect rfl).bind
    intro t
    apply (tidy_expect rfl).bind
    intro u
    apply (tidy_accept rfl).bind
    intro isLocal
    apply (tidy_expect rfl).bind
    intro v
    apply (textConstant_tidy n).bind
    intro path
    apply (tidy_accept rfl).bind
    intro overwrite
    apply (tidy_expect rfl).bind
    intro w
    apply (tidy_expect rfl).bind
    intro x
    apply (qualifiedName_tidy n).bind
    intro table
    apply (partition?_tidy n).bind
    intro partition
    apply (options?_tidy n).bind
    intro options
    apply (tidy_spanFrom start).bind
    intro region
    apply tidy_pure

/-! ### Statements taken verbatim -/

/-- The end of a statement ends its tokens if no parenthesis is open; otherwise a semicolon is taken,
and the end of the text refused. -/
theorem balanced_tidy (n depth : Nat) (found : List Token) :
  (balanced n depth found).Tidy
  := by
  induction n generalizing depth found with
  | zero => exact tidy_fail fun _ => rfl
  | succ n ih =>
      apply tidy_peek_bind_of
      · intro t
        split
        · apply tidy_pure
        · apply tidy_expected
        · apply tidy_pure
        · apply tidy_expected
        · apply tidy_expected
        · next h =>
            rw [h]
            apply tidy_advance_bind (by simp)
            intro u
            apply ih
        · next h =>
            rw [h]
            apply tidy_advance_bind (by simp)
            intro u
            apply ih
        · apply tidy_advance_bind (by assumption)
          intro u
          apply ih
      · intro t u ht hu
        rcases Kind.ends_iff.mp ht with h | h
        · cases depth with
          | zero =>
              left
              simp only [h, hu]
          | succ depth =>
              right
              simp only [h]
              exact ⟨by simp, _, rfl⟩
        · left
          simp only [h, hu]

/-- A statement that is taken verbatim begins with a token that has been looked at. -/
theorem verbatim_tidy (n : Nat) {k : Kind} (hk : k.belongs) :
  TidyAt [k] (verbatim n)
  := by
  apply tidy_look_again hk
  intro t _
  apply (balanced_tidy n 0 []).bind
  intro tokens
  apply (tidy_spanFrom t.span.start).bind
  intro region
  apply tidy_pure

theorem locates_theEnd :
  LocatesAt [] theEnd
  := by
  apply (locates_nextIs _).bind
  intro atEnd
  apply (tidy_ite (tidy_pure ()) (tidy_expected _)).locates

/-! ### Merges -/

variable {inner : Inner} (hin : inner.Tidy)

include hin

theorem assignment_tidy :
  (assignment inner).Tidy
  := by
  apply tidy_here_bind
  · intro start
    apply (qualifiedName_consumes inner.bound).bind
  · intro start
    apply (qualifiedName_tidy inner.bound).bind
    intro target
    apply (tidy_expect rfl).bind
    intro t
    apply hin.expression.bind
    intro value
    apply (tidy_spanFrom start).bind
    intro region
    apply tidy_pure

theorem changeAction_tidy (fromSource : Bool) :
  (changeAction inner fromSource).Tidy
  := by
  apply (tidy_accept rfl).bind_ite (tidy_pure _)
  apply tidy_nextIsWord_bind_ite
  · apply tidy_advance_bind (by simp)
    intro t
    apply (tidy_expect rfl).bind
    intro u
    apply (allColumns_tidy _).bind_ite (tidy_pure _)
    apply ((assignment_tidy hin).commaList inner.bound).bind
    intro assignments
    apply tidy_pure
  · apply tidy_expected

theorem insertAction_tidy :
  (insertAction inner).Tidy
  := by
  apply (tidy_expect rfl).bind
  intro t
  apply (tidy_accept rfl).bind_ite (tidy_pure _)
  apply (columns_tidy inner.bound).bind
  intro columns
  apply (tidy_expect rfl).bind
  intro u
  apply (tidy_expect rfl).bind
  intro v
  apply (expressionsToParen_tidy hin).bind
  intro values
  apply tidy_pure

theorem clause_tidy :
  (clause inner).Tidy
  := by
  apply tidy_here_bind
  · intro start
    apply (expect_consumes (by simp)).bind
  · intro start
    apply (tidy_expect rfl).bind
    intro t
    apply clauseRows_tidy.bind
    intro rows
    apply (hin.expression.afterToken? rfl).bind
    intro condition
    apply (tidy_expect rfl).bind
    intro u
    have hend : ∀ action : Action,
        Tidy (do return ⟨rows, condition, action, ← spanFrom start⟩ : Production Clause) := by
      intro action
      apply (tidy_spanFrom start).bind
      intro region
      apply tidy_pure
    cases rows with
    | notMatched =>
        apply (insertAction_tidy hin).bind
        intro action
        apply hend
    | matched =>
        apply (changeAction_tidy hin true).bind
        intro action
        apply hend
    | notMatchedBySource =>
        apply (changeAction_tidy hin false).bind
        intro action
        apply hend

theorem mergeSource_tidy :
  (mergeSource inner).Tidy
  := by
  apply (tidy_accept rfl).bind_ite
  · apply (queryToParen_tidy hin).bind
    intro q
    apply tidy_pure
  · apply (qualifiedName_tidy inner.bound).bind
    intro name
    apply tidy_pure

theorem clauses_tidy :
  (clauses inner).Tidy
  := by
  apply Tidy.bind
  · apply Tidy.collect
    apply (tidy_nextIs rfl).bind_ite ((clause_tidy hin).map some) (tidy_pure _)
  · intro found
    apply tidy_ite (tidy_expected _) (tidy_pure _)

theorem merge_tidy :
  (merge inner).Tidy
  := by
  apply tidy_here_bind
  · intro start
    apply (expect_consumes (by simp)).bind
  · intro start
    apply (tidy_expect rfl).bind
    intro t
    apply (tidy_expect rfl).bind
    intro u
    apply (qualifiedName_tidy inner.bound).bind
    intro target
    apply label?_tidy.bind
    intro targetLabel
    apply (tidy_expect rfl).bind
    intro v
    apply (mergeSource_tidy hin).bind
    intro source
    apply label?_tidy.bind
    intro sourceLabel
    apply (tidy_expect rfl).bind
    intro w
    apply hin.expression.bind
    intro condition
    apply (clauses_tidy hin).bind
    intro clauses
    apply (tidy_spanFrom start).bind
    intro region
    apply tidy_pure

theorem exportRows_tidy :
  (exportRows inner).Tidy
  := by
  apply tidy_here_bind
  · intro start
    apply (expect_consumes (by simp)).bind
  · intro start
    apply (tidy_expect rfl).bind
    intro t
    apply hin.query.bind
    intro q
    apply (tidy_expect rfl).bind
    intro u
    apply (textConstant_tidy inner.bound).bind
    intro path
    apply (ident_tidy.afterToken? rfl).bind
    intro format
    apply (options?_tidy inner.bound).bind
    intro options
    apply (tidy_spanFrom start).bind
    intro region
    apply tidy_pure

/-! ### Statements -/

theorem statement_tidy :
  (statement inner).Tidy
  := by
  have hquery : ∀ k, TidyAt [k] (do return .query (← inner.query) : Production Statement) := by
    intro k
    apply hin.query.bind
    intro q
    apply tidy_pure
  have hverbatim : ∀ {k : Kind}, k.belongs →
      TidyAt [k] (do return .verbatim (← verbatim inner.bound) : Production Statement) := by
    intro k hk
    apply (verbatim_tidy inner.bound hk).bind_seen
    intro v
    apply tidy_pure
  apply tidy_peek_bind (expected "statement")
  · intro t
    split
    · apply (merge_tidy hin).bind
      intro m
      apply tidy_pure
    · apply (load_tidy inner.bound).bind
      intro l
      apply tidy_pure
    · apply (exportRows_tidy hin).bind
      intro e
      apply tidy_pure
    · apply hquery
    · apply hquery
    · apply hquery
    · apply hquery
    · apply hquery
    · next h => exact hverbatim (by rw [h]; rfl)
    · next h => exact hverbatim (by rw [h]; rfl)
    · next h => exact hverbatim (by rw [h]; rfl)
    · next h => exact hverbatim (by rw [h]; rfl)
    · apply tidy_expected
  · intro t ht
    rcases Kind.ends_iff.mp ht with h | h <;> simp only [h]

theorem soleStatement_locates :
  LocatesAt [] (soleStatement inner)
  := by
  apply (statement_tidy hin).locates.bind
  intro s
  apply (locates_accept (by simp)).bind
  intro hasSemicolon
  apply locates_theEnd.bind
  intro _
  apply (tidy_pure _).locates

theorem statements_locates (n : Nat) (found : List Node) :
  LocatesAt [] (statements inner n found)
  := by
  induction n generalizing found with
  | zero => exact (tidy_fail fun _ => rfl).locates
  | succ n ih =>
      apply locates_peek_bind
      intro t
      split
      · apply (tidy_pure _).locates
      · next h =>
          rw [h]
          apply locates_take (by simp)
          intro u _
          left
          apply ih
      · apply LocatesAt.seen
        apply (statement_tidy hin).locates.bind
        intro s
        apply (locates_accept (by simp)).bind
        intro hasSemicolon
        split
        · apply ih
        · apply locates_theEnd.bind
          intro _
          apply (tidy_pure _).locates

theorem soleExpression_locates :
  LocatesAt [] (soleExpression inner)
  := by
  apply hin.expression.locates.bind
  intro e
  apply locates_theEnd.bind
  intro _
  apply (tidy_pure _).locates

end SqlFront.Grammar
