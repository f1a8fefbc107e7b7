import SqlFront.Proofs.Grammar.Trees
import SqlFront.Proofs.Tokens.Order

/-!
# Precedence and associativity

In every tree that is read, an operand of an operator binds at least as tightly as the operator
wants, and between the operands of an operator stands nothing but the operator.  So the shape of a
tree is the one that the levels of its operators ask for: what binds loosely never stands below what
binds tightly unless it is between parentheses, and operators of one level associate to the left.
-/

namespace SqlFront

/-! ### What is wanted of operands -/

/-- The operands of an expression bind as tightly as its outermost operator wants. -/
def Form.Ordered : Form → Prop
  | .binary op left right => op.level ≤ left.form.level ∧ op.level < right.form.level
  | .unary .not operand => 3 ≤ operand.form.level
  | .unary _ operand => 11 ≤ operand.form.level
  | .between subject _ low high =>
    5 ≤ subject.form.level ∧ 5 ≤ low.form.level ∧ 5 ≤ high.form.level
  | .inList subject _ _ => 5 ≤ subject.form.level
  | .inQuery subject _ _ => 5 ≤ subject.form.level
  | .like subject _ _ pattern => 5 ≤ subject.form.level ∧ 5 ≤ pattern.form.level
  | .isNull subject _ => 5 ≤ subject.form.level
  | _ => True

/-- Whether a body is made of two others, without parentheses around it. -/
def Body.IsCombination : Body → Prop
  | .combination .. => True
  | _ => False

/-- Whether a body is made of two others by one of the loosely binding set operators. -/
def Body.IsLoose : Body → Prop
  | .combination op .. => op ≠ .intersect
  | _ => False

/-- The operands of a set operator bind as tightly as it wants. -/
def Body.Ordered : Body → Prop
  | .combination .intersect _ left right _ => ¬ left.IsLoose ∧ ¬ right.IsCombination
  | .combination _ _ _ right _ => ¬ right.IsLoose
  | _ => True

/-- Whether a set operator is written with a word of this kind. -/
def SetOp.IsWord : SetOp → Kind → Prop
  | .union, k => k = .keyword .UNION
  | .except, k => k = .keyword .EXCEPT ∨ k = .keyword .MINUS
  | .intersect, k => k = .keyword .INTERSECT

/-- The tokens that a set operator and the word behind it are written with. -/
inductive SetOp.Written (op : SetOp) : Option Quantifier → List Token → Prop where
  | bare {t : Token} (word : op.IsWord t.kind) : Written op none [t]
  | distinct {t u : Token} (word : op.IsWord t.kind) (quantifier : u.kind = .keyword .DISTINCT) :
      Written op (some .distinct) [t, u]
  | all {t u : Token} (word : op.IsWord t.kind) (quantifier : u.kind = .keyword .ALL) :
      Written op (some .all) [t, u]

/-- A part is as the levels of operators ask: its operands bind tightly enough, and between the
operands of an operator only that operator stands among the tokens `ts`. -/
def Part.Ordered (ts : List Token) : Part → Prop
  | expression e => e.form.Ordered ∧
      ∀ op left right, e.form = .binary op left right →
        ∃ t, Token.between ts left.span.stop right.span.start = [t] ∧
          BinaryOp.ofKind? t.kind = some op
  | body b => b.Ordered ∧
      ∀ op quantifier left right region, b = .combination op quantifier left right region →
        op.Written quantifier (Token.between ts left.span.stop right.span.start)
  | _ => True

/-! ### Expressions -/

namespace Grammar

variable {n level : Nat} {u : List Token}

theorem Rules.PredicateFormRule.ordered {subject : Expression} {negated : Bool} {form : Form}
    (hsubject : 5 ≤ subject.form.level)
    (h : (within n).PredicateFormRule subject negated form u) :
  form.Ordered
  := by
  cases h with
  | between word isLow conjoins isHigh =>
      exact ⟨hsubject, (ComparisonRule.levelRule isLow).le_level,
        (ComparisonRule.levelRule isHigh).le_level⟩
  | inQuery => apply hsubject
  | inList => apply hsubject
  | like word isPattern => exact ⟨hsubject, (ComparisonRule.levelRule isPattern).le_level⟩
  | isNull => apply hsubject

theorem Rules.LevelRule.ordered {e : Expression} (h : (within n).LevelRule level e u) :
  e.form.Ordered
  := by
  induction h with
  | tighter _ ih => apply ih
  | operation isLeft isOperator isRight => exact ⟨isLeft.le_level, isRight.le_level⟩
  | not word isOperand =>
      cases n with
      | zero => exact isOperand.elim
      | succ n => exact (NegationRule.levelRule isOperand).le_level
  | exist => trivial
  | predicate isSubject words isForm => apply isForm.ordered isSubject.le_level
  | @sign t op operand _ isSign isOperand =>
      have hop := UnaryOp.ne_not_of_ofKind? isSign
      have hle : 11 ≤ operand.form.level := by
        cases n with
        | zero => exact isOperand.elim
        | succ n => exact (SignedRule.levelRule isOperand).le_level
      cases op with
      | not => contradiction
      | _ => exact hle
  | primary isForm => cases isForm <;> trivial

/-- An operator stands between the tokens of its operands. -/
theorem Rules.LevelRule.operator {e : Expression} {op : BinaryOp} {left right : Expression}
    (h : (within n).LevelRule level e u) (he : e.form = .binary op left right) :
  ∃ x t y, u = x ++ [t] ++ y ∧ x ≠ [] ∧ y ≠ [] ∧ left.span = Span.over x ∧
    right.span = Span.over y ∧ BinaryOp.ofKind? t.kind = some op
  := by
  induction h with
  | tighter _ ih => apply ih he
  | @operation _ _ _ t x y isLeft isOperator isRight =>
      obtain ⟨⟩ := he
      refine ⟨x, t, y, by simp, isLeft.ne_nil, isRight.ne_nil, isLeft.span_eq, isRight.span_eq, ?_⟩
      apply isOperator
  | not | exist | sign => simp at he
  | predicate isSubject words isForm => cases isForm <;> simp at he
  | primary isForm => cases isForm <;> simp at he

/-! ### Bodies -/

theorem QuantifierRule.written {op : SetOp} {quantifier : Option Quantifier} {t : Token}
    (hop : op.IsWord t.kind) (h : Possible QuantifierRule quantifier u) :
  op.Written quantifier (t :: u)
  := by
  cases h with
  | none => exact .bare hop
  | some item =>
      cases item with
      | distinct word => exact .distinct hop word
      | all word => exact .all hop word

theorem Rules.SimpleBodyRule.not_isCombination {b : Body} (h : (within n).SimpleBodyRule b u) :
  ¬ b.IsCombination
  := by
  cases h <;> simp [Body.IsCombination]

theorem SetOp.isWord_of_ofKind? {k : Kind} {op : SetOp} (h : SetOp.ofKind? k = some op) :
  op.IsWord k ∧ op ≠ .intersect
  := by
  unfold SetOp.ofKind? at h
  split at h
  · obtain ⟨⟩ := h
    exact ⟨rfl, by simp⟩
  · obtain ⟨⟩ := h
    exact ⟨.inl rfl, by simp⟩
  · obtain ⟨⟩ := h
    exact ⟨.inr rfl, by simp⟩
  · simp at h

theorem SetOp.isWord_of_intersect? {k : Kind} {op : SetOp} (h : Rules.intersect? k = some op) :
  op.IsWord k ∧ op = .intersect
  := by
  unfold Rules.intersect? at h
  split at h
  · next hk =>
      obtain ⟨⟩ := h
      exact ⟨hk, rfl⟩
  · simp at h

/-- The rule for operands of the loosely binding set operators. -/
abbrev Rules.TermRule (G : Rules) : Body → List Token → Prop :=
  CombinedRule intersect? (SimpleBodyRule G)

theorem Rules.TermRule.not_isLoose {b : Body} (h : (within n).TermRule b u) :
  ¬ b.IsLoose
  := by
  cases h with
  | one only =>
      intro hloose
      apply only.not_isCombination
      cases b <;> trivial
  | more isLeft isOperator isQuantifier isRight =>
      simp [Body.IsLoose, (SetOp.isWord_of_intersect? isOperator).2]

theorem Rules.SimpleBodyRule.ordered {b : Body} (h : (within n).SimpleBodyRule b u) :
  b.Ordered
  := by
  cases h <;> trivial

theorem Rules.TermRule.ordered {b : Body} (h : (within n).TermRule b u) :
  b.Ordered
  := by
  cases h with
  | one only => apply only.ordered
  | more isLeft isOperator isQuantifier isRight =>
      obtain ⟨-, rfl⟩ := SetOp.isWord_of_intersect? isOperator
      exact ⟨Rules.TermRule.not_isLoose isLeft, isRight.not_isCombination⟩

theorem Rules.BodyRule.ordered {b : Body} (h : (within n).BodyRule b u) :
  b.Ordered
  := by
  cases h with
  | one only => apply Rules.TermRule.ordered only
  | @more _ _ op _ _ _ _ _ isLeft isOperator isQuantifier isRight =>
      have hop := (SetOp.isWord_of_ofKind? isOperator).2
      cases op with
      | intersect => contradiction
      | _ => exact Rules.TermRule.not_isLoose isRight

/-- A set operator and the word behind it stand between the tokens of the operands. -/
def Rules.Joined (b : Body) (u : List Token) : Prop :=
  ∀ op quantifier left right region, b = .combination op quantifier left right region →
    ∃ x w y, u = x ++ w ++ y ∧ x ≠ [] ∧ y ≠ [] ∧ left.span = Span.over x ∧
      right.span = Span.over y ∧ op.Written quantifier w

theorem Rules.CombinedRule.joined {op? : Kind → Option SetOp} {operand : Body → List Token → Prop}
    {b : Body} (hword : ∀ k op, op? k = some op → op.IsWord k)
    (hspan : ∀ b v, operand b v → b.span = Span.over v) (hne : ∀ b v, operand b v → v ≠ [])
    (hoperand : ∀ b v, operand b v → Joined b v) (h : CombinedRule op? operand b u) :
  Joined b u
  := by
  cases h with
  | one only => apply hoperand _ _ only
  | @more _ _ _ _ t x v y isLeft isOperator isQuantifier isRight =>
      rintro op quantifier left right region ⟨⟩
      refine ⟨x, t :: v, y, rfl, isLeft.ne_nil hne, hne _ _ isRight, isLeft.span_eq hspan,
        hspan _ _ isRight, ?_⟩
      apply QuantifierRule.written (hword _ _ isOperator) isQuantifier

theorem Rules.BodyRule.joined {b : Body} (h : (within n).BodyRule b u) :
  Joined b u
  := by
  apply CombinedRule.joined (fun _ _ h => (SetOp.isWord_of_ofKind? h).1) _ _ _ h
  · intro b v h
    apply h.span_eq fun _ _ h => h.span_eq
  · intro b v h
    apply h.ne_nil fun _ _ h => h.ne_nil
  · intro b v h
    apply CombinedRule.joined (fun _ _ h => (SetOp.isWord_of_intersect? h).1) _ _ _ h
    · intro b v h
      apply h.span_eq
    · intro b v h
      apply h.ne_nil
    · intro b v h op quantifier left right region hb
      subst hb
      exact (h.not_isCombination trivial).elim

end Grammar

/-! ### Trees -/

/-- A part read from some of the tokens of a text is as the levels of operators ask. -/
theorem Part.Reading.ordered {p : Part} {u ts : List Token} (h : p.Reading u) (hu : u <:+: ts)
    (hts : Token.Sorted ts) :
  p.Ordered ts
  := by
  obtain ⟨before, after, rfl⟩ := hu
  cases p with
  | expression e =>
      obtain ⟨n, level, h⟩ := h
      refine ⟨h.ordered, ?_⟩
      intro op left right he
      obtain ⟨x, t, y, rfl, hx, hy, hleft, hright, hop⟩ := h.operator he
      use t
      rw [hleft, hright]
      exact ⟨hts.between_over rfl hx hy, hop⟩
  | body b =>
      obtain ⟨n, h⟩ := h
      refine ⟨Grammar.Rules.BodyRule.ordered h, ?_⟩
      intro op quantifier left right region hb
      obtain ⟨x, w, y, rfl, hx, hy, hleft, hright, hop⟩ :=
        Grammar.Rules.BodyRule.joined h op quantifier left right region hb
      rw [hleft, hright, hts.between_over rfl hx hy]
      apply hop
  | _ => trivial

/-- Every tree that a text is read as is, throughout, as the levels of operators ask. -/
theorem Yields.parts_ordered {text : String} {node : Node} (h : Yields text node) :
  ∃ ts, Token.list text = .ok ts ∧
    ∀ p : Part, p.Within node.part → p.Ordered (ts.filter (·.isVisible))
  := by
  obtain ⟨ts, hts, hparts⟩ := h.reading_of_within
  use ts, hts
  intro p hp
  obtain ⟨u, hu, hreading⟩ := hparts p hp
  apply hreading.ordered hu (Token.sorted_visible hts)

/-- The tree of `1 - 2 * 3` is as the levels ask. -/
theorem Yields.parts_ordered_difference :
  ∃ node, Yields "1 - 2 * 3" node ∧ ∃ ts, Token.list "1 - 2 * 3" = .ok ts ∧
    ∀ p : Part, p.Within node.part → p.Ordered (ts.filter (·.isVisible))
  := by
  have hok : (parseExpression "1 - 2 * 3").toOption.isSome := by decide +kernel
  obtain ⟨node, hnode⟩ := Option.isSome_iff_exists.mp hok
  have h : parseExpression "1 - 2 * 3" = .ok node := by
    cases hp : parseExpression "1 - 2 * 3" with
    | error e => simp [hp, Except.toOption] at hnode
    | ok node' =>
        simp only [hp, Except.toOption, Option.some.injEq] at hnode
        rw [hnode]
  exact ⟨node, .expression h, Yields.parts_ordered (.expression h)⟩

end SqlFront
