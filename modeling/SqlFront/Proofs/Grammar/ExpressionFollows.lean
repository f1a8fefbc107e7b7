import SqlFront.Grammar.Expression
import SqlFront.Proofs.Grammar.Follows

/-!
# Expressions wherever they lie

The productions of expressions follow each other if those of the expressions, queries and types
nested in them do.
-/

namespace SqlFront.Grammar

open Production

variable {c : Embedding} {limit n n' : Nat} {k : Kind}

theorem belongs_of_unaryOp {op : UnaryOp} (h : UnaryOp.ofKind? k = some op) :
  k.belongs
  := by
  cases k <;> first | rfl | contradiction

theorem belongs_of_binaryOp {op : BinaryOp} (h : BinaryOp.ofKind? k = some op) :
  k.belongs
  := by
  cases k <;> first | rfl | contradiction

variable {inner inner' : Inner} (hin : inner.Follows c limit inner')

include hin

/-! ### Primary expressions -/

theorem expressionsToParen_follows :
  Follows c limit (expressionsToParen inner) (expressionsToParen inner')
  := by
  apply (hin.expression.commaList hin.bound).bind
  intro items
  apply (follows_expect rfl).bind
  intro t
  apply follows_pure rfl

theorem queryToParen_follows :
  Follows c limit (queryToParen inner) (queryToParen inner')
  := by
  apply hin.query.bind
  intro q
  apply (follows_expect rfl).bind
  intro t
  apply follows_pure rfl

theorem nameForm_follows :
  Follows c limit (nameForm inner) (nameForm inner')
  := by
  have harguments : ∀ (name : QualifiedName) (distinct : Bool), Follows c limit (do
      if ← accept .rightParen then return .call name distinct []
      else return .call name distinct (← expressionsToParen inner) : Production Form) (do
      if ← accept .rightParen then return .call (move c.map name) distinct []
      else return .call (move c.map name) distinct (← expressionsToParen inner') :
        Production Form) := by
    intro name distinct
    apply (follows_accept rfl).bind_ite
    · apply follows_pure rfl
    · apply (expressionsToParen_follows hin).bind
      intro items
      apply follows_pure
      simp [move, Form.move]
  apply (qualifiedName_follows hin.bound).bind
  intro name
  apply follows_nextAre_bind_ite rfl
  · apply follows_advance_bind rfl
    intro t
    apply follows_advance_bind rfl
    intro u
    apply follows_pure rfl
  · apply (follows_accept rfl).bind_ite
    · apply (follows_accept rfl).bind
      intro distinct
      apply follows_ite
      · apply (follows_accept rfl).bind
        intro all
        apply harguments
      · apply harguments
    · apply follows_pure rfl

theorem parenForm_follows :
  FollowsAt c limit [.leftParen] (parenForm inner) (parenForm inner')
  := by
  apply follows_second_bind rfl
  intro t
  apply follows_ite
  · apply follows_advance_bind rfl
    intro u
    apply ((queryToParen_follows hin).seen _).bind_seen
    intro q
    apply follows_pure rfl
  · apply follows_advance_bind rfl
    intro u
    apply hin.expression.bind
    intro first
    apply (follows_accept rfl).bind_ite
    · apply follows_pure rfl
    · apply (follows_expect rfl).bind
      intro v
      apply (expressionsToParen_follows hin).bind
      intro items
      apply follows_pure
      simp [move, Form.move]

theorem branch?_follows :
  Follows c limit (branch? inner) (branch? inner')
  := by
  apply Follows.afterToken? _ rfl
  apply hin.expression.bind
  intro condition
  apply (follows_expect rfl).bind
  intro t
  apply hin.expression.bind
  intro result
  apply follows_pure rfl

theorem caseOperand?_follows :
  Follows c limit (caseOperand? inner) (caseOperand? inner')
  := by
  apply (follows_nextIs _).bind_ite
  · apply follows_pure rfl
  · apply hin.expression.some

theorem caseForm_follows :
  Follows c limit (caseForm inner) (caseForm inner')
  := by
  apply (follows_expect rfl).bind
  intro t
  apply (caseOperand?_follows hin).bind
  intro operand
  apply ((branch?_follows hin).collect (afterToken?_progresses (by simp) _) hin.bound rfl).bind
  intro branches
  cases branches with
  | nil => apply follows_expected
  | cons b branches =>
      apply (hin.expression.afterToken? rfl).bind
      intro otherwise
      apply (follows_expect rfl).bind
      intro u
      apply follows_pure
      simp [move, Form.move]

theorem castForm_follows {type type' : Production DataType} (htype : Follows c limit type type') :
  Follows c limit (castForm inner type) (castForm inner' type')
  := by
  apply (follows_expect rfl).bind
  intro t
  apply (follows_expect rfl).bind
  intro u
  apply hin.expression.bind
  intro subject
  apply (follows_expect rfl).bind
  intro v
  apply htype.bind
  intro type
  apply (follows_expect rfl).bind
  intro w
  apply follows_pure rfl

omit hin in
theorem typeParameter_follows :
  Natural c limit typeParameter
  := by
  apply (follows_expect rfl).bind
  intro t
  apply follows_ite
  · apply follows_pure rfl
  · apply follows_failLast rfl

omit hin in
theorem opensAngle_follows (name word : String) :
  Natural c limit (opensAngle name word)
  := by
  apply follows_ite
  · apply follows_accept rfl
  · apply follows_pure rfl

theorem dataType_follows :
  Follows c limit (dataType inner) (dataType inner')
  := by
  apply ident_follows.bind
  intro i
  apply (opensAngle_follows _ _).bind
  intro isArray
  apply (opensAngle_follows _ _).bind
  intro isMap
  apply follows_ite
  · apply hin.dataType.bind
    intro element
    apply (follows_expect rfl).bind
    intro t
    apply follows_pure rfl
  · apply follows_ite
    · apply hin.dataType.bind
      intro key
      apply (follows_expect rfl).bind
      intro t
      apply hin.dataType.bind
      intro value
      apply (follows_expect rfl).bind
      intro u
      apply follows_pure rfl
    · apply (follows_accept rfl).bind_ite
      · apply (typeParameter_follows.commaList hin.bound).bind
        intro parameters
        apply (follows_expect rfl).bind
        intro t
        apply follows_pure
        rw [move_eq c.map parameters]
        rfl
      · apply follows_pure rfl

theorem primaryForm_follows (t : Token) :
  FollowsAt c limit [t.kind] (primaryForm inner t) (primaryForm inner' (move c.map t))
  := by
  have hword : ∀ form : Form, form = move c.map form → t.kind.belongs →
      FollowsAt c limit [t.kind] (do
      let _ ← advance
      return form : Production Form) (do
      let _ ← advance
      return form : Production Form) := by
    intro form hform hbelongs
    apply follows_advance_bind hbelongs
    intro u
    apply follows_pure hform
  have hliteral : ∀ ks, FollowsAt c limit ks (Form.literal <$> literal inner.bound)
      (Form.literal <$> literal inner'.bound) := by
    intro ks
    apply (literal_follows hin.bound).map
    intro value
    rfl
  unfold primaryForm
  rw [Token.kind_move]
  split
  · next h => exact hword _ rfl (by rw [h]; rfl)
  · next h => exact hword _ rfl (by rw [h]; rfl)
  · apply (caseForm_follows hin).seen
  · apply (castForm_follows hin (dataType_follows hin)).seen
  · apply hliteral
  · apply hliteral
  · apply hliteral
  · apply hliteral
  · apply hliteral
  · apply hliteral
  · next h => exact hword _ rfl (by rw [h]; rfl)
  · next h =>
      rw [h]
      apply parenForm_follows hin
  · next h =>
      rw [h]
      apply follows_second_bind rfl
      intro u
      apply follows_ite (hliteral _) ((nameForm_follows hin).seen _)
  · apply follows_ite ((nameForm_follows hin).seen _) (follows_expected _)

theorem primaryExpression_follows :
  Follows c limit (primaryExpression inner) (primaryExpression inner')
  := by
  apply follows_peek_bind
  intro t
  apply (primaryForm_follows hin t).bind_seen
  intro form
  apply (follows_spanFrom t.span.start).bind
  intro region
  apply follows_pure rfl

/-! ### Operators -/

theorem signed_follows :
  Follows c limit (signed inner) (signed inner')
  := by
  apply follows_peek_bind
  intro t
  rw [Token.kind_move]
  cases hop : UnaryOp.ofKind? t.kind with
  | none => apply (primaryExpression_follows hin).seen
  | some op =>
      apply follows_advance_bind (belongs_of_unaryOp hop)
      intro u
      apply hin.signed.bind
      intro operand
      apply (follows_spanFrom t.span.start).bind
      intro region
      apply follows_pure rfl

omit hin in
theorem move_binary (op : BinaryOp) (left right : Expression) :
  move c.map (Expression.binary op left right) = .binary op (move c.map left) (move c.map right)
  := by
  cases left
  cases right
  change Expression.mk (Form.move c.map _) _ = _
  rw [Form.move_binary]
  rfl

omit hin in
theorem operations_follows {operand operand' : Production Expression}
    (h : Follows c limit operand operand') (level : Nat) (hn : Enough limit n n')
    (left : Expression) :
  Follows c limit (operations level operand n left)
    (operations level operand' n' (move c.map left))
  := by
  induction limit generalizing n n' left with
  | zero => apply follows_zero
  | succ limit ih =>
      obtain ⟨n, n', rfl, rfl, hless⟩ := hn.exists_succ
      have hbehind : Follows c limit operand operand' := h.mono (Nat.le_succ limit)
      apply follows_peek_bind
      intro t
      rw [Token.kind_move]
      cases hop : (BinaryOp.ofKind? t.kind).filter (·.level = level) with
      | none => apply follows_pure rfl
      | some op =>
          apply follows_advance_lt (belongs_of_binaryOp (Option.filter_eq_some_iff.mp hop).1)
          intro u
          apply hbehind.bind
          intro right
          rw [← move_binary]
          apply ih hbehind hless

omit hin in
theorem atLevel_follows {operand operand' : Production Expression}
    (h : Follows c limit operand operand') (hn : Enough limit n n') (level : Nat) :
  Follows c limit (atLevel n level operand) (atLevel n' level operand')
  := by
  apply h.bind
  intro left
  apply operations_follows h level hn

theorem comparison_follows :
  Follows c limit (comparison inner) (comparison inner')
  := by
  have hfold : ∀ (levels : List Nat) (operand operand' : Production Expression),
      Follows c limit operand operand' →
      Follows c limit
        (levels.foldl (fun operand level => atLevel inner.bound level operand) operand)
        (levels.foldl (fun operand level => atLevel inner'.bound level operand) operand') := by
    intro levels
    induction levels with
    | nil => exact fun _ _ h => h
    | cons level levels ih =>
        intro operand operand' h
        apply ih
        apply atLevel_follows h hin.bound
  apply hfold
  apply signed_follows hin

theorem predicateForm?_follows (subject : Expression) (negated : Bool) :
  Follows c limit (predicateForm? inner subject negated)
    (predicateForm? inner' (move c.map subject) negated)
  := by
  apply follows_peek_bind
  intro t
  rw [Token.kind_move]
  split
  · next h =>
      rw [h]
      apply follows_advance_bind rfl
      intro u
      apply (comparison_follows hin).bind
      intro low
      apply (follows_expect rfl).bind
      intro v
      apply (comparison_follows hin).bind
      intro high
      apply follows_pure rfl
  · next h =>
      rw [h]
      apply follows_advance_bind rfl
      intro u
      apply (follows_expect rfl).bind
      intro v
      apply follows_peek_bind
      intro w
      apply follows_ite
      · apply (queryToParen_follows hin).bind
        intro q
        apply follows_pure rfl
      · apply (expressionsToParen_follows hin).bind
        intro items
        apply follows_pure
        simp [move, Form.move]
  · next h =>
      rw [h]
      apply follows_advance_bind rfl
      intro u
      apply (comparison_follows hin).bind
      intro pattern
      apply follows_pure rfl
  · next h =>
      rw [h]
      apply follows_advance_bind rfl
      intro u
      apply (comparison_follows hin).bind
      intro pattern
      apply follows_pure rfl
  · next h =>
      rw [h]
      apply follows_advance_bind rfl
      intro u
      apply (follows_accept rfl).bind
      intro negated
      apply (follows_expect rfl).bind
      intro v
      apply follows_pure rfl
  · apply follows_pure rfl

omit hin in
theorem negated_follows :
  Natural c limit negated
  := by
  apply follows_nextIs_bind_ite
  · apply follows_second_bind rfl
    intro t
    apply follows_ite
    · apply follows_advance_bind rfl
      intro u
      apply follows_pure rfl
    · apply follows_pure rfl
  · apply follows_pure rfl

theorem predicate_follows :
  Follows c limit (predicate inner) (predicate inner')
  := by
  apply follows_here.bind
  intro start
  apply (comparison_follows hin).bind
  intro subject
  apply negated_follows.bind
  intro negated
  apply (predicateForm?_follows hin subject negated).bind
  intro o
  cases o with
  | none => apply follows_pure rfl
  | some form =>
      apply (follows_spanFrom start).bind
      intro region
      apply follows_pure rfl

theorem negation_follows :
  Follows c limit (negation inner) (negation inner')
  := by
  apply follows_here.bind
  intro start
  apply (follows_accept rfl).bind_ite
  · apply hin.negation.bind
    intro operand
    apply (follows_spanFrom start).bind
    intro region
    apply follows_pure rfl
  · apply follows_nextAre_bind_ite rfl
    · apply follows_advance_bind rfl
      intro t
      apply follows_advance_bind rfl
      intro u
      apply (queryToParen_follows hin).bind
      intro q
      apply (follows_spanFrom start).bind
      intro region
      apply follows_pure rfl
    · apply predicate_follows hin

theorem expression_follows :
  Follows c limit (expression inner) (expression inner')
  := by
  apply atLevel_follows _ hin.bound
  apply atLevel_follows _ hin.bound
  apply negation_follows hin

end SqlFront.Grammar
