import SqlFront.Grammar.Expression
import SqlFront.Proofs.Grammar.ExpressionFollows
import SqlFront.Proofs.Grammar.Tidy

/-!
# Expressions are tidy

The productions of expressions are tidy if those of the expressions, queries and types nested in
them are.  The parameter of a type is the only place where a fault concerns a token that has been
taken.
-/

namespace SqlFront.Grammar

open Production

theorem not_beginsQuery_of_ends {k : Kind} (h : k.ends) :
  ¬ beginsQuery k
  := by
  rcases Kind.ends_iff.mp h with rfl | rfl <;> decide

variable {inner : Inner} (hin : inner.Tidy)

include hin

/-! ### Primary expressions -/

theorem expressionsToParen_tidy :
  (expressionsToParen inner).Tidy
  := by
  apply (hin.expression.commaList inner.bound).bind
  intro items
  apply (tidy_expect rfl).bind
  intro t
  apply tidy_pure

theorem queryToParen_tidy :
  (queryToParen inner).Tidy
  := by
  apply hin.query.bind
  intro q
  apply (tidy_expect rfl).bind
  intro t
  apply tidy_pure

omit hin in
theorem queryToParen_consumes (inner : Inner) :
  (queryToParen inner).Consumes
  := by
  apply consumes_bind
  intro q
  apply (expect_consumes (by simp)).bind

theorem nameForm_tidy :
  (nameForm inner).Tidy
  := by
  have harguments : ∀ (name : QualifiedName) (distinct : Bool), Tidy (do
      if ← accept .rightParen then return .call name distinct []
      else return .call name distinct (← expressionsToParen inner) : Production Form) := by
    intro name distinct
    apply (tidy_accept rfl).bind_ite
    · apply tidy_pure
    · apply (expressionsToParen_tidy hin).bind
      intro items
      apply tidy_pure
  apply (qualifiedName_tidy inner.bound).bind
  intro name
  apply tidy_nextAre_bind_ite rfl rfl
  · apply tidy_advance_bind (by simp)
    intro t
    apply tidy_advance_bind (by simp)
    intro u
    apply tidy_pure
  · apply (tidy_accept rfl).bind_ite
    · apply (tidy_accept rfl).bind
      intro distinct
      apply tidy_ite
      · apply (tidy_accept rfl).bind
        intro all
        apply harguments
      · apply harguments
    · apply tidy_pure

theorem parenForm_tidy :
  TidyAt [.leftParen] (parenForm inner)
  := by
  have hexpression : ∀ ks, TidyAt (.leftParen :: ks) (do
      let _ ← advance
      let first ← inner.expression
      if ← accept .rightParen then return .nested first
      else
        let _ ← expect .comma
        return .row (first :: (← expressionsToParen inner)) : Production Form) := by
    intro ks
    apply tidy_advance_bind (by simp)
    intro u
    apply hin.expression.bind
    intro first
    apply (tidy_accept rfl).bind_ite
    · apply tidy_pure
    · apply (tidy_expect rfl).bind
      intro v
      apply (expressionsToParen_tidy hin).bind
      intro items
      apply tidy_pure
  apply tidy_second_bind rfl _ _ fun t ht => if_neg (not_beginsQuery_of_ends ht)
  intro t
  apply tidy_ite
  · apply tidy_advance_bind (by simp)
    intro u
    apply (queryToParen_tidy hin).bind
    intro q
    apply tidy_pure
  · apply hexpression

theorem branch?_tidy :
  (branch? inner).Tidy
  := by
  apply Tidy.afterToken? _ rfl
  apply hin.expression.bind
  intro condition
  apply (tidy_expect rfl).bind
  intro t
  apply hin.expression.bind
  intro result
  apply tidy_pure

theorem caseOperand?_tidy :
  (caseOperand? inner).Tidy
  := (tidy_nextIs rfl).bind_ite (tidy_pure _) (hin.expression.map some)

theorem caseForm_tidy :
  (caseForm inner).Tidy
  := by
  apply (tidy_expect rfl).bind
  intro t
  apply (caseOperand?_tidy hin).bind
  intro operand
  apply ((branch?_tidy hin).collect inner.bound []).bind
  intro branches
  apply tidy_ite
  · apply tidy_expected
  · apply (hin.expression.afterToken? rfl).bind
    intro otherwise
    apply (tidy_expect rfl).bind
    intro u
    apply tidy_pure

theorem castForm_tidy {type : Production DataType} (htype : type.Tidy) :
  (castForm inner type).Tidy
  := by
  apply (tidy_expect rfl).bind
  intro t
  apply (tidy_expect rfl).bind
  intro u
  apply hin.expression.bind
  intro subject
  apply (tidy_expect rfl).bind
  intro v
  apply htype.bind
  intro type
  apply (tidy_expect rfl).bind
  intro w
  apply tidy_pure

omit hin in
/-- A number that is too large has been taken when it is refused, and nothing behind it has been
looked at. -/
theorem typeParameter_tidy :
  typeParameter.Tidy
  := by
  rw [typeParameter, expect_bind]
  apply tidy_look (i := .first) rfl (by simp) (expected _)
  · intro t
    apply tidy_ite_of
    · intro hkind
      rw [hkind]
      apply tidy_take_number
      intro u
      dsimp only
      split
      · left
        apply tidy_pure
      · right
        rfl
    · intro _
      apply tidy_expected
  · exact fun t ht => if_neg (Kind.ne_of_ends ht rfl)

omit hin in
theorem opensAngle_tidy (name word : String) :
  (opensAngle name word).Tidy
  := tidy_ite (tidy_accept rfl) (tidy_pure _)

theorem dataType_tidy :
  (dataType inner).Tidy
  := by
  apply ident_tidy.bind
  intro i
  apply (opensAngle_tidy _ _).bind
  intro isArray
  apply (opensAngle_tidy _ _).bind
  intro isMap
  apply tidy_ite
  · apply hin.dataType.bind
    intro element
    apply (tidy_expect rfl).bind
    intro t
    apply tidy_pure
  · apply tidy_ite
    · apply hin.dataType.bind
      intro key
      apply (tidy_expect rfl).bind
      intro t
      apply hin.dataType.bind
      intro value
      apply (tidy_expect rfl).bind
      intro u
      apply tidy_pure
    · apply (tidy_accept rfl).bind_ite
      · apply (typeParameter_tidy.commaList inner.bound).bind
        intro parameters
        apply (tidy_expect rfl).bind
        intro t
        apply tidy_pure
      · apply tidy_pure

theorem primaryForm_tidy (t : Token) :
  TidyAt [t.kind] (primaryForm inner t)
  := by
  have hword : ∀ form : Form, t.kind ≠ .eof → TidyAt [t.kind] (do
      let _ ← advance
      return form : Production Form) := by
    intro form hne
    apply tidy_advance_bind hne
    intro u
    apply tidy_pure
  have hliteral : ∀ ks, TidyAt ks (Form.literal <$> literal inner.bound) := by
    intro ks
    apply (literal_tidy inner.bound).map
  unfold primaryForm
  split
  · next h => exact hword _ (by simp [h])
  · next h => exact hword _ (by simp [h])
  · apply (caseForm_tidy hin).seen
  · apply (castForm_tidy hin (dataType_tidy hin)).seen
  · apply hliteral
  · apply hliteral
  · apply hliteral
  · apply hliteral
  · apply hliteral
  · apply hliteral
  · next h => exact hword _ (by simp [h])
  · next h =>
      rw [h]
      apply parenForm_tidy hin
  · next h =>
      rw [h]
      apply tidy_second_bind rfl _ _ fun u hu => if_neg (Kind.ne_of_ends hu rfl)
      intro u
      apply tidy_ite (hliteral _) ((nameForm_tidy hin).seen _)
  · apply tidy_ite ((nameForm_tidy hin).seen _) (tidy_expected _)

theorem primaryExpression_tidy :
  (primaryExpression inner).Tidy
  := by
  apply tidy_peek_bind (expected "expression")
  · intro t
    apply (primaryForm_tidy hin t).bind_seen
    intro form
    apply (tidy_spanFrom t.span.start).bind
    intro region
    apply tidy_pure
  · intro t ht
    rcases Kind.ends_iff.mp ht with h | h <;> simp only [primaryForm, h] <;> rfl

/-! ### Operators -/

theorem signed_tidy :
  (signed inner).Tidy
  := by
  apply tidy_peek_bind (primaryExpression inner)
  · intro t
    cases hop : UnaryOp.ofKind? t.kind with
    | none => apply (primaryExpression_tidy hin).seen
    | some op =>
        apply tidy_advance_bind (Kind.ne_eof_of_belongs (belongs_of_unaryOp hop))
        intro u
        apply hin.signed.bind
        intro operand
        apply (tidy_spanFrom t.span.start).bind
        intro region
        apply tidy_pure
  · intro t ht
    rcases Kind.ends_iff.mp ht with h | h <;> simp only [h, UnaryOp.ofKind?]

omit hin in
theorem operations_tidy {operand : Production Expression} (h : operand.Tidy) (level n : Nat)
    (left : Expression) :
  (operations level operand n left).Tidy
  := by
  induction n generalizing left with
  | zero => exact tidy_fail fun _ => rfl
  | succ n ih =>
      apply tidy_peek_bind (pure left)
      · intro t
        cases hop : (BinaryOp.ofKind? t.kind).filter (·.level = level) with
        | none => apply tidy_pure
        | some op =>
            have hbelongs := belongs_of_binaryOp (Option.filter_eq_some_iff.mp hop).1
            apply tidy_advance_bind (Kind.ne_eof_of_belongs hbelongs)
            intro u
            apply h.bind
            intro right
            apply ih
      · intro t ht
        rcases Kind.ends_iff.mp ht with h | h <;> simp only [h, BinaryOp.ofKind?, Option.filter_none]

omit hin in
theorem atLevel_tidy {operand : Production Expression} (h : operand.Tidy) (n level : Nat) :
  (atLevel n level operand).Tidy
  := by
  apply h.bind
  intro left
  apply operations_tidy h

theorem comparison_tidy :
  (comparison inner).Tidy
  := by
  have hfold : ∀ (levels : List Nat) (operand : Production Expression), operand.Tidy →
      Tidy (levels.foldl (fun operand level => atLevel inner.bound level operand) operand) := by
    intro levels
    induction levels with
    | nil => exact fun _ h => h
    | cons level levels ih =>
        intro operand h
        apply ih
        apply atLevel_tidy h
  apply hfold
  apply signed_tidy hin

theorem comparison_consumes :
  (comparison inner).Consumes
  := by
  obtain ⟨G, -, hobeys⟩ := hin.obeys
  exact Obeys.consumes (comparison_obeys hobeys) fun _ _ => Rules.ComparisonRule.ne_nil

theorem predicate_consumes :
  (predicate inner).Consumes
  := by
  obtain ⟨G, -, hobeys⟩ := hin.obeys
  exact Obeys.consumes (predicate_obeys hobeys) fun _ _ => Rules.PredicateRule.ne_nil

theorem predicateForm?_tidy (subject : Expression) (negated : Bool) :
  (predicateForm? inner subject negated).Tidy
  := by
  apply tidy_peek_bind (pure none)
  · intro t
    split
    · next h =>
        rw [h]
        apply tidy_advance_bind (by simp)
        intro u
        apply (comparison_tidy hin).bind
        intro low
        apply (tidy_expect rfl).bind
        intro v
        apply (comparison_tidy hin).bind
        intro high
        apply tidy_pure
    · next h =>
        rw [h]
        apply tidy_advance_bind (by simp)
        intro u
        apply (tidy_expect rfl).bind
        intro v
        apply tidy_peek_bind _ _ fun w hw => if_neg (not_beginsQuery_of_ends hw)
        intro w
        apply tidy_ite
        · apply (queryToParen_tidy hin).bind
          intro q
          apply tidy_pure
        · apply (expressionsToParen_tidy hin).bind
          intro items
          apply tidy_pure
    · next h =>
        rw [h]
        apply tidy_advance_bind (by simp)
        intro u
        apply (comparison_tidy hin).bind
        intro pattern
        apply tidy_pure
    · next h =>
        rw [h]
        apply tidy_advance_bind (by simp)
        intro u
        apply (comparison_tidy hin).bind
        intro pattern
        apply tidy_pure
    · next h =>
        rw [h]
        apply tidy_advance_bind (by simp)
        intro u
        apply (tidy_accept rfl).bind
        intro negated
        apply (tidy_expect rfl).bind
        intro v
        apply tidy_pure
    · apply tidy_pure
  · intro t ht
    rcases Kind.ends_iff.mp ht with h | h <;> simp only [h]

omit hin in
theorem not_isNegatable_of_ends {k : Kind} (h : k.ends) :
  ¬ isNegatable k
  := by
  rcases Kind.ends_iff.mp h with rfl | rfl <;> decide

omit hin in
theorem negated_tidy :
  negated.Tidy
  := by
  apply tidy_nextIs_bind_ite rfl
  · apply tidy_second_bind rfl _ _ fun t ht => if_neg (not_isNegatable_of_ends ht)
    intro t
    apply tidy_ite
    · apply tidy_advance_bind (by simp)
      intro u
      apply tidy_pure
    · apply tidy_pure
  · apply tidy_pure

theorem predicate_tidy :
  (predicate inner).Tidy
  := by
  apply tidy_here_bind
  · intro start
    apply (comparison_consumes hin).bind
  · intro start
    apply (comparison_tidy hin).bind
    intro subject
    apply negated_tidy.bind
    intro negated
    apply (predicateForm?_tidy hin subject negated).bind
    intro o
    cases o with
    | none => apply tidy_pure
    | some form =>
        apply (tidy_spanFrom start).bind
        intro region
        apply tidy_pure

theorem negation_tidy :
  (negation inner).Tidy
  := by
  apply tidy_here_bind
  · intro start
    apply consumes_accept_bind (by simp)
    apply consumes_bind
    intro isTest
    apply consumes_ite _ (predicate_consumes hin)
    apply consumes_bind
    intro t
    apply consumes_bind
    intro u
    apply (queryToParen_consumes inner).bind
  · intro start
    apply (tidy_accept rfl).bind_ite
    · apply hin.negation.bind
      intro operand
      apply (tidy_spanFrom start).bind
      intro region
      apply tidy_pure
    · apply tidy_nextAre_bind_ite rfl rfl
      · apply tidy_advance_bind (by simp)
        intro t
        apply tidy_advance_bind (by simp)
        intro u
        apply (queryToParen_tidy hin).bind
        intro q
        apply (tidy_spanFrom start).bind
        intro region
        apply tidy_pure
      · apply predicate_tidy hin

theorem expression_tidy :
  (expression inner).Tidy
  := by
  apply atLevel_tidy
  apply atLevel_tidy
  apply negation_tidy hin

end SqlFront.Grammar
