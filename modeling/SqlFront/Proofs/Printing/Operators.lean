import SqlFront.Proofs.Printing.Primaries

/-!
# Operators from their words

Expressions with operators are recovered on the levels of the operators if their operands are.
Operators that associate to the left are read in chains: when the words of an expression have been
read, the operations of a level go on with the expression as their left operand
(`Grammar.Begins`).
-/

namespace SqlFront

open Token

namespace Grammar

open Production

variable {inner : Inner} {rest ws m : List String} {span : Span} {w : String} {k : Kind}
  {negated : Bool}

/-! ### Operators before an operand -/

theorem recovers_sign {op : UnaryOp} {operand : Expression} (hop : op ≠ .not)
    (hoperand : inner.signed.Recovers 11 operand) :
  (signed inner).Recovers 11 ⟨.unary op operand, span⟩
  := by
  intro rest hrest
  obtain ⟨kind, hkind, hsign⟩ := UnaryOp.kindOf?_word hop
  apply (reads_peek_word op.word (operand.words ++ rest)).bind
  rw [kind_ofWord hkind, hsign]
  apply (reads_advance_word _ _).bind
  apply (hoperand rest hrest).bind
  apply (reads_spanFrom_words rest).bind
  apply reads_done_self

theorem recovers_not {operand : Expression} (hoperand : inner.negation.Recovers 3 operand) :
  (negation inner).Recovers 3 ⟨.unary .not operand, span⟩
  := by
  intro rest hrest
  apply (reads_here_words _).bind
  apply (reads_accept_word (Keyword.kindOf?_spelling (k := .NOT) (by decide)) _).bind_true
  apply (hoperand rest hrest).bind
  apply (reads_spanFrom_words rest).bind
  apply reads_done_self

/-! ### Predicates -/

/-- `NOT` before a predicate is read if it stands there. -/
theorem reads_negated_words (hw : kindOf? w = some k) (hk : isNegatable k) (ws : List String) :
  Grammar.negated.Reads (.ofWords (notWords negated ++ w :: ws)) negated (.ofWords (w :: ws))
  := by
  cases negated with
  | false =>
      apply reads_negated_not
      rw [notWords, if_neg Bool.false_ne_true, List.nil_append, leading_cons hw]
      rintro rfl
      contradiction
  | true =>
      have hnot := Keyword.kindOf?_spelling (k := .NOT) (by decide)
      obtain ⟨t, hpeek, hkind⟩ := reads_second_words Keyword.NOT.spelling (w :: ws)
      apply (reads_nextIs_words (leading_cons hnot _)).bind_true
      apply hpeek.bind
      rw [hkind, leading_cons hw, if_pos hk]
      apply (reads_advance_word _ _).bind
      apply reads_done_self

theorem binds_notWords (hw : kindOf? w = some k) (hk : k.binds = 4) (ws : List String) :
  (leading (notWords negated ++ w :: ws)).binds < 5
  := by
  cases negated with
  | false =>
      rw [notWords, if_neg Bool.false_ne_true, List.nil_append, leading_cons hw, hk]
      decide
  | true =>
      rw [notWords, if_pos rfl, List.cons_append,
        leading_cons (Keyword.kindOf?_spelling (k := .NOT) (by decide))]
      decide

/-- A predicate is a comparison, perhaps `NOT`, and what the predicate says of the comparison. -/
theorem reads_predicate_words {subject : Expression} {form : Form}
    (hsubject : (comparison inner).Recovers 5 subject)
    (hbinds : (leading ws).binds < 5)
    (hnegated : Grammar.negated.Reads (.ofWords ws) negated (.ofWords m))
    (hform : (predicateForm? inner (forget subject) negated).Reads (.ofWords m)
      (some form) (.ofWords rest)) :
  (predicate inner).Reads (.ofWords (subject.words ++ ws)) ⟨form, .point .start⟩ (.ofWords rest)
  := by
  apply (reads_here_words _).bind
  apply (hsubject ws hbinds).bind
  apply hnegated.bind
  apply hform.bind
  apply (reads_spanFrom_words rest).bind
  apply reads_done_self

theorem recovers_between {subject low high : Expression}
    (hsubject : (comparison inner).Recovers 5 subject) (hlow : (comparison inner).Recovers 5 low)
    (hhigh : (comparison inner).Recovers 5 high) :
  (predicate inner).Recovers 4 ⟨.between subject negated low high, span⟩
  := by
  intro rest hrest
  have hbetween := Keyword.kindOf?_spelling (k := .BETWEEN) (by decide)
  have hand := Keyword.kindOf?_spelling (k := .AND) (by decide)
  simp only [Expression.words, Form.words, List.append_assoc, List.cons_append]
  apply reads_predicate_words hsubject (binds_notWords hbetween rfl _)
    (reads_negated_words hbetween rfl _)
  apply (reads_peek_word _ _).bind
  rw [kind_ofWord hbetween]
  apply (reads_advance_word _ _).bind
  apply (hlow _ (by rw [leading_cons hand]; decide)).bind
  apply (reads_expect_word hand _).bind
  apply (hhigh rest (Nat.lt_succ_of_lt hrest)).bind
  apply reads_done_self

theorem forget_inList (subject : Expression) (negated : Bool) (items : List Expression)
    (span : Span) :
  forget (⟨.inList subject negated items, span⟩ : Expression) =
    ⟨.inList (forget subject) negated (forget items), .point .start⟩
  := by
  change (⟨.inList _ _ (expressionsMove _ items), _⟩ : Expression) = _
  rw [expressionsMove_eq]
  rfl

/-- A list of items has one item or more. -/
theorem recovers_inList {subject e : Expression} {es : List Expression}
    (hbound : (commaWords (e :: es)).length < inner.bound)
    (hsubject : (comparison inner).Recovers 5 subject) (hwritable : e.Writable)
    (hitems : ∀ y ∈ e :: es, inner.expression.Recovers 1 y) :
  (predicate inner).Recovers 4 ⟨.inList subject negated (e :: es), span⟩
  := by
  intro rest _
  have hin := Keyword.kindOf?_spelling (k := .IN) (by decide)
  obtain ⟨t, hpeek, hkind, -⟩ := reads_peek_words (commaWords (e :: es) ++ ")" :: rest)
  rw [forget_inList]
  simp only [Expression.words, Form.words, List.append_assoc, List.cons_append, List.nil_append]
  apply reads_predicate_words hsubject (binds_notWords hin rfl _) (reads_negated_words hin rfl _)
  apply (reads_peek_word _ _).bind
  rw [kind_ofWord hin]
  apply (reads_advance_word _ _).bind
  apply (reads_expect_word kindOf?_leftParen _).bind
  apply hpeek.bind
  rw [hkind, beginsQuery_of_opens (opens_commaWords hwritable), if_neg Bool.false_ne_true]
  apply (reads_expressionsToParen_words hbound hitems).bind
  apply reads_done_self

theorem recovers_like {subject pattern : Expression} {regex : Bool}
    (hsubject : (comparison inner).Recovers 5 subject)
    (hpattern : (comparison inner).Recovers 5 pattern) :
  (predicate inner).Recovers 4 ⟨.like subject negated regex pattern, span⟩
  := by
  intro rest hrest
  have hlike := Keyword.kindOf?_spelling (k := .LIKE) (by decide)
  have hrlike := Keyword.kindOf?_spelling (k := .RLIKE) (by decide)
  simp only [Expression.words, Form.words, List.append_assoc, List.cons_append]
  cases regex with
  | false =>
      apply reads_predicate_words hsubject (binds_notWords hlike rfl _)
        (reads_negated_words hlike rfl _)
      apply (reads_peek_word _ _).bind
      rw [kind_ofWord hlike]
      apply (reads_advance_word _ _).bind
      apply (hpattern rest (Nat.lt_succ_of_lt hrest)).bind
      apply reads_done_self
  | true =>
      apply reads_predicate_words hsubject (binds_notWords hrlike rfl _)
        (reads_negated_words hrlike rfl _)
      apply (reads_peek_word _ _).bind
      rw [kind_ofWord hrlike]
      apply (reads_advance_word _ _).bind
      apply (hpattern rest (Nat.lt_succ_of_lt hrest)).bind
      apply reads_done_self

theorem recovers_isNull {subject : Expression} (hsubject : (comparison inner).Recovers 5 subject) :
  (predicate inner).Recovers 4 ⟨.isNull subject negated, span⟩
  := by
  intro rest _
  have his := Keyword.kindOf?_spelling (k := .IS) (by decide)
  have hnot := Keyword.kindOf?_spelling (k := .NOT) (by decide)
  have hnull := Keyword.kindOf?_spelling (k := .NULL) (by decide)
  have hlead := leading_cons his (notWords negated ++ Keyword.NULL.spelling :: rest)
  simp only [Expression.words, Form.words, List.append_assoc, List.cons_append, List.nil_append]
  apply reads_predicate_words hsubject (by rw [hlead]; decide)
    (reads_negated_not (by rw [hlead]; decide))
  apply (reads_peek_word _ _).bind
  rw [kind_ofWord his]
  apply (reads_advance_word _ _).bind
  cases negated with
  | false =>
      have hnext : leading (Keyword.NULL.spelling :: rest) ≠ .keyword .NOT := by
        rw [leading_cons hnull]
        decide
      apply (reads_accept_not (by decide) hnext).bind
      apply (reads_expect_word hnull rest).bind
      apply reads_done_self
  | true =>
      apply (reads_accept_word hnot _).bind
      apply (reads_expect_word hnull rest).bind
      apply reads_done_self

/-! ### Chains -/

/-- When the words of `e` have been read with `k` operations of the level in them, the operations
of the level go on with `e` as their left operand. -/
def Begins (inner : Inner) (level k : Nat) (e : Expression) : Prop :=
  ∀ (rest : List String) (n : Nat) (whole : Expression) (s' : Tape), (leading rest).binds ≤ level →
    (operations level (tier inner (level + 1)) n (forget e)).Reads (.ofWords rest) whole s' →
    (tier inner (level + 1) >>= operations level (tier inner (level + 1)) (n + k)).Reads
      (.ofWords (e.words ++ rest)) whole s'

variable {k level : Nat} {op : BinaryOp} {e left right : Expression}

theorem begins_operand (h : (tier inner (level + 1)).Recovers (level + 1) e) :
  Begins inner level 0 e
  := by
  intro rest n whole s' hrest hwhole
  exact (h rest (Nat.lt_succ_of_le hrest)).bind hwhole

theorem forget_binary (op : BinaryOp) (left right : Expression) (span : Span) :
  forget (⟨.binary op left right, span⟩ : Expression) = .binary op (forget left) (forget right)
  := by
  cases left
  cases right
  rfl

/-- An operation continues the chain that its left operand begins. -/
theorem begins_operation (hleft : Begins inner op.level k left)
    (hright : (tier inner (op.level + 1)).Recovers (op.level + 1) right) :
  Begins inner op.level (k + 1) ⟨.binary op left right, span⟩
  := by
  intro rest n whole s' hrest hwhole
  rw [forget_binary] at hwhole
  obtain ⟨kind, hkind, hop⟩ := BinaryOp.kindOf?_word op
  have hnext : (leading (op.word :: (right.words ++ rest))).binds = op.level := by
    rw [leading_cons hkind, Kind.binds_of_operator hop]
  rw [Expression.words_binary, List.append_assoc, List.cons_append]
  rw [← Nat.add_assoc, Nat.add_right_comm]
  apply hleft _ (n + 1) whole s' (Nat.le_of_eq hnext)
  apply (reads_peek_word _ _).bind
  rw [kind_ofWord hkind, hop, Option.filter_some, if_pos (decide_eq_true rfl)]
  apply (reads_advance_word _ _).bind
  apply (hright rest (Nat.lt_succ_of_le hrest)).bind
  apply hwhole

/-- A chain ends where no operator of the level follows. -/
theorem recovers_of_begins (h : Begins inner op.level k e) (hbound : k < inner.bound) :
  (tier inner op.level).Recovers op.level e
  := by
  intro rest hrest
  have hsum : inner.bound = inner.bound - k + k := (Nat.sub_add_cancel (Nat.le_of_lt hbound)).symm
  rw [tier_operator, atLevel, hsum]
  apply h rest _ _ _ (Nat.le_of_lt hrest)
  apply reads_operations_stop (Nat.sub_ne_zero_of_lt hbound) (Nat.ne_of_lt hrest)

end Grammar

end SqlFront
