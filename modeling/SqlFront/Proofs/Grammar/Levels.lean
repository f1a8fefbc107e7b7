import SqlFront.Proofs.Grammar.QueryObeys

/-!
# Levels of operators

The rules for expressions, level by level.  `G.LevelRule level e u` says that `e` is read from `u`
and that its outermost operator binds at least as tightly as the operators of the level do: `OR` is
on level 1, `AND` on 2, `NOT` and `EXISTS` on 3, the predicates on 4, the operators from the
comparisons to the multiplications on 5 to 10, the signs on 11, and what needs no operator on 12.
-/

namespace SqlFront

/-- How tightly the outermost operator of an expression binds. -/
def Form.level : Form → Nat
  | .binary op _ _ => op.level
  | .unary .not _ => 3
  | .exist _ => 3
  | .between .. => 4
  | .inList .. => 4
  | .inQuery .. => 4
  | .like .. => 4
  | .isNull .. => 4
  | .unary .. => 11
  | _ => 12

/-- No token is the sign `NOT`. -/
theorem UnaryOp.ne_not_of_ofKind? {k : Kind} {op : UnaryOp} (h : ofKind? k = some op) :
  op ≠ .not
  := by
  rintro rfl
  unfold ofKind? at h
  split at h <;> simp at h

namespace Grammar.Rules

/-- An expression whose outermost operator is of the level or binds tighter. -/
inductive LevelRule (G : Rules) : Nat → Expression → List Token → Prop where
  | tighter {level : Nat} {e : Expression} {u : List Token} (isTighter : LevelRule G (level + 1) e u) :
      LevelRule G level e u
  | operation {op : BinaryOp} {left right : Expression} {t : Token} {u v : List Token}
      (isLeft : LevelRule G op.level left u) (isOperator : BinaryOp.ofKind? t.kind = some op)
      (isRight : LevelRule G (op.level + 1) right v) :
      LevelRule G op.level (.binary op left right) (u ++ t :: v)
  | not {t : Token} {operand : Expression} {u : List Token} (word : t.kind = .keyword .NOT)
      (isOperand : G.negation operand u) :
      LevelRule G 3 ⟨.unary .not operand, Span.over (t :: u)⟩ (t :: u)
  | exist {t : Token} {query : Query} {u : List Token} (word : t.kind = .keyword .EXISTS)
      (inside : Enclosed G.query query u) :
      LevelRule G 3 ⟨.exist query, Span.over (t :: u)⟩ (t :: u)
  | predicate {subject : Expression} {negated : Bool} {form : Form} {u v w : List Token}
      (isSubject : LevelRule G 5 subject u) (words : Plain v)
      (isForm : G.PredicateFormRule subject negated form w) :
      LevelRule G 4 ⟨form, Span.over (u ++ v ++ w)⟩ (u ++ v ++ w)
  | sign {t : Token} {op : UnaryOp} {operand : Expression} {u : List Token}
      (isSign : UnaryOp.ofKind? t.kind = some op) (isOperand : G.signed operand u) :
      LevelRule G 11 ⟨.unary op operand, Span.over (t :: u)⟩ (t :: u)
  | primary {form : Form} {u : List Token} (isForm : G.FormRule form u) :
      LevelRule G 12 ⟨form, Span.over u⟩ u

variable {G : Rules} {level : Nat} {e : Expression} {u : List Token}

/-! ### The rules of the levels -/

theorem SignedRule.levelRule (h : G.SignedRule e u) :
  G.LevelRule 11 e u
  := by
  cases h with
  | sign isSign isOperand => apply LevelRule.sign isSign isOperand
  | primary isForm => exact .tighter (.primary isForm)

theorem levelRule_of_chain {operand : Expression → List Token → Prop}
    (hoperand : ∀ e u, operand e u → G.LevelRule (level + 1) e u) (h : ChainRule level operand e u) :
  G.LevelRule level e u
  := by
  induction h with
  | one only => exact .tighter (hoperand _ _ only)
  | more isLeft isOperator hasLevel isRight ih =>
      subst hasLevel
      apply LevelRule.operation ih isOperator (hoperand _ _ isRight)

theorem ComparisonRule.levelRule (h : G.ComparisonRule e u) :
  G.LevelRule 5 e u
  := by
  apply levelRule_of_chain _ h
  iterate 5
    intro e u h
    apply levelRule_of_chain _ h
  intro e u h
  apply SignedRule.levelRule h

theorem PredicateRule.levelRule (h : G.PredicateRule e u) :
  G.LevelRule 4 e u
  := by
  cases h with
  | comparison isSubject => exact .tighter (ComparisonRule.levelRule isSubject)
  | @positive _ _ v w isSubject isForm =>
      have h := LevelRule.predicate (ComparisonRule.levelRule isSubject) plain_nil isForm
      rwa [List.append_nil] at h
  | @negative _ _ t v w isSubject word isForm =>
      have h : G.LevelRule 4 _ (v ++ [t] ++ w) :=
        .predicate (ComparisonRule.levelRule isSubject) (by simp [Plain, word, Kind.isPlain]) isForm
      rwa [List.append_assoc, List.singleton_append] at h

theorem NegationRule.levelRule (h : G.NegationRule e u) :
  G.LevelRule 3 e u
  := by
  cases h with
  | not word isOperand => apply LevelRule.not word isOperand
  | exist word inside => apply LevelRule.exist word inside
  | predicate isPredicate => exact .tighter (PredicateRule.levelRule isPredicate)

theorem ExpressionRule.levelRule (h : G.ExpressionRule e u) :
  G.LevelRule 1 e u
  := by
  apply levelRule_of_chain _ h
  intro e u h
  apply levelRule_of_chain _ h
  intro e u h
  apply NegationRule.levelRule h

/-! ### What a level says -/

theorem FormRule.level_eq {form : Form} (h : G.FormRule form u) :
  form.level = 12
  := by
  cases h <;> rfl

theorem PredicateFormRule.level_eq {subject : Expression} {negated : Bool} {form : Form}
    (h : G.PredicateFormRule subject negated form u) :
  form.level = 4
  := by
  cases h <;> rfl

/-- An expression that is read on a level is of that level or binds tighter. -/
theorem LevelRule.le_level (h : G.LevelRule level e u) :
  level ≤ e.form.level
  := by
  induction h with
  | tighter _ ih => exact Nat.le_of_succ_le ih
  | operation => apply Nat.le_refl
  | not => apply Nat.le_refl
  | exist => apply Nat.le_refl
  | predicate _ _ isForm => exact Nat.le_of_eq isForm.level_eq.symm
  | @sign t op _ _ isSign _ =>
      have hop := UnaryOp.ne_not_of_ofKind? isSign
      cases op <;> simp_all [Form.level]
  | primary isForm => exact Nat.le_of_eq isForm.level_eq.symm

theorem LevelRule.ne_nil (h : G.LevelRule level e u) :
  u ≠ []
  := by
  induction h with
  | tighter _ ih => apply ih
  | predicate _ _ isForm => simp [isForm.ne_nil]
  | primary isForm => apply isForm.ne_nil
  | _ => simp

/-- The region of an expression is that of the tokens that it is read from. -/
theorem LevelRule.span_eq (h : G.LevelRule level e u) :
  e.span = Span.over u
  := by
  induction h with
  | tighter _ ih => apply ih
  | @operation op left right t u v isLeft isOperator isRight ihLeft ihRight =>
      have hleft : u ++ [t] ≠ [] := List.append_ne_nil_of_right_ne_nil u (List.cons_ne_nil t [])
      rw [Expression.binary, ihLeft, ihRight, List.append_cons,
        Span.over_append hleft isRight.ne_nil, Span.over_append isLeft.ne_nil (List.cons_ne_nil t [])]
  | _ => rfl

/-- The region of a body without set operators is that of its tokens. -/
theorem SimpleBodyRule.span_eq {b : Body} (h : G.SimpleBodyRule b u) :
  b.span = Span.over u
  := by
  cases h with
  | select isSelect =>
      cases isSelect
      rfl
  | _ => rfl

theorem CombinedRule.span_eq {op? : Kind → Option SetOp} {operand : Body → List Token → Prop}
    {b : Body} (hoperand : ∀ b v, operand b v → b.span = Span.over v)
    (h : CombinedRule op? operand b u) :
  b.span = Span.over u
  := by
  cases h with
  | one only => apply hoperand _ _ only
  | more => rfl

/-- The region of a body is that of the tokens that it is read from. -/
theorem BodyRule.span_eq {b : Body} (h : G.BodyRule b u) :
  b.span = Span.over u
  := by
  apply CombinedRule.span_eq _ h
  intro b v h
  apply h.span_eq fun _ _ h => h.span_eq

end Grammar.Rules

end SqlFront
