import SqlFront.Proofs.Printing.Reading

/-!
# Tiers of the grammar

The productions for expressions by the level of the operators that they read: `tier inner 1` reads
any expression, `tier inner 12` one that needs no operator.  What a tier reads, the tiers of lower
levels read too, if the next token does not bind to it: they have nothing to add.
-/

namespace SqlFront

/-! ### Tokens beside an expression -/

/-- How tightly a token binds to an expression before it. -/
def Kind.binds (k : Kind) : Nat :=
  match BinaryOp.ofKind? k with
  | some op => op.level
  | none =>
    if k = .keyword .NOT ∨ k = .keyword .IS ∨ Grammar.isNegatable k then 4
    else if k = .dot ∨ k = .leftParen ∨ k = .string then 12
    else 0

/-- The highest level of the expressions that begin with a token. -/
def Kind.opens : Kind → Nat
  | .keyword .NOT => 3
  | .minus | .plus | .tilde => 11
  | .keyword .NULL | .keyword .TRUE | .keyword .FALSE | .keyword .CASE | .keyword .CAST
  | .keyword .CURRENT_DATE | .keyword .CURRENT_TIMESTAMP | .string | .number _ | .asterisk
  | .leftParen => 12
  | k => if k.isName then 12 else 0

variable {k : Kind} {level : Nat}

theorem Kind.binds_of_operator {op : BinaryOp} (h : BinaryOp.ofKind? k = some op) :
  k.binds = op.level
  := by
  rw [binds, h]

theorem Kind.opens_of_isName (hk : k.isName) :
  k.opens = 12
  := by
  unfold opens
  split
  all_goals first | rfl | rw [if_pos hk] | simp [isName, Keyword.isReserved, isIdentifier] at hk

/-- A token that the signs and what is above them begin with is no sign. -/
theorem Kind.ofKind?_of_opens (hk : 11 < k.opens) :
  UnaryOp.ofKind? k = none
  := by
  unfold UnaryOp.ofKind?
  split <;> simp_all [opens]

namespace Grammar

open Production

/-- The productions for expressions, counted from the level without operators. -/
def descent (inner : Inner) : Nat → Production Expression
  | 0 => primaryExpression inner
  | 1 => signed inner
  | 8 => predicate inner
  | 9 => negation inner
  | n + 1 => atLevel inner.bound (11 - n) (descent inner n)

/-- The production for the expressions whose operators bind at least as tightly as those of the
level do. -/
def tier (inner : Inner) (level : Nat) : Production Expression := descent inner (12 - level)

variable {inner : Inner} {e : Expression} {ws rest : List String}

theorem tier_operator (op : BinaryOp) :
  tier inner op.level = atLevel inner.bound op.level (tier inner (op.level + 1))
  := by
  cases op <;> rfl

/-! ### From tier to tier -/

theorem reads_operations_stop {operand : Production Expression} {n : Nat} (hn : n ≠ 0)
    (hrest : (leading rest).binds ≠ level) :
  (operations level operand n e).Reads (.ofWords rest) e (.ofWords rest)
  := by
  obtain ⟨n, rfl⟩ := Nat.exists_eq_succ_of_ne_zero hn
  obtain ⟨t, hpeek, hkind, -⟩ := reads_peek_words rest
  have hnone : (BinaryOp.ofKind? t.kind).filter (·.level = level) = none := by
    rw [Option.filter_eq_none_iff, hkind]
    intro op hop
    rw [← Kind.binds_of_operator hop]
    simpa using hrest
  apply hpeek.bind
  rw [hnone]
  apply reads_done_self

theorem reads_atLevel_single {operand : Production Expression} {bound : Nat} (hbound : bound ≠ 0)
    (hrest : (leading rest).binds < level)
    (h : operand.Reads (.ofWords ws) e (.ofWords rest)) :
  (atLevel bound level operand).Reads (.ofWords ws) e (.ofWords rest)
  := h.bind (reads_operations_stop hbound (Nat.ne_of_lt hrest))

theorem reads_negated_not (hrest : leading rest ≠ .keyword .NOT) :
  negated.Reads (.ofWords rest) false (.ofWords rest)
  := (reads_nextIs_not hrest).bind_false (reads_done_self _ _)

theorem reads_predicateForm?_none {negated : Bool} (hrest : (leading rest).binds < 4) :
  (predicateForm? inner e negated).Reads (.ofWords rest) none (.ofWords rest)
  := by
  obtain ⟨t, hpeek, hkind, -⟩ := reads_peek_words rest
  apply hpeek.bind
  rw [hkind]
  split
  all_goals first
    | apply reads_done_self
    | next h => simp [h, Kind.binds, BinaryOp.ofKind?, isNegatable] at hrest

/-- Above a comparison that no predicate follows there is nothing to add. -/
theorem reads_predicate_none (hrest : (leading rest).binds < 4)
    (h : (comparison inner).Reads (.ofWords ws) e (.ofWords rest)) :
  (predicate inner).Reads (.ofWords ws) e (.ofWords rest)
  := by
  have hnot : leading rest ≠ .keyword .NOT := by
    intro h
    simp [h, Kind.binds, BinaryOp.ofKind?] at hrest
  apply (reads_here_words _).bind
  apply h.bind
  apply (reads_negated_not hnot).bind
  apply (reads_predicateForm?_none hrest).bind
  apply reads_done_self

/-- A predicate that does not begin with `NOT` or a test for rows is read as it is. -/
theorem reads_negation_predicate (hnot : leading ws ≠ .keyword .NOT)
    (hexists : leading ws ≠ .keyword .EXISTS)
    (h : (predicate inner).Reads (.ofWords ws) e (.ofWords rest)) :
  (negation inner).Reads (.ofWords ws) e (.ofWords rest)
  := by
  apply (reads_here_words _).bind
  apply (reads_accept_not (by decide) hnot).bind_false
  apply (reads_nextAre_not hexists).bind_false h

/-- What no sign begins is read as a primary expression. -/
theorem reads_signed_primary (hsign : UnaryOp.ofKind? (leading ws) = none)
    (h : (primaryExpression inner).Reads (.ofWords ws) e (.ofWords rest)) :
  (signed inner).Reads (.ofWords ws) e (.ofWords rest)
  := by
  obtain ⟨t, hpeek, hkind, -⟩ := reads_peek_words ws
  apply hpeek.bind
  rw [hkind, hsign]
  apply h

/-- What a tier reads, the next lower one reads too, if nothing follows that binds to it. -/
theorem reads_tier_of_succ (hbound : inner.bound ≠ 0) (hlevel : level < 12)
    (hrest : (leading rest).binds < level) (hfirst : level < (leading ws).opens)
    (h : (tier inner (level + 1)).Reads (.ofWords ws) e (.ofWords rest)) :
  (tier inner level).Reads (.ofWords ws) e (.ofWords rest)
  := by
  match level, hlevel with
  | 3, _ =>
      apply reads_negation_predicate _ _ h
      all_goals
        intro heq
        simp [heq, Kind.opens, Kind.isName, Keyword.isReserved] at hfirst
  | 4, _ => apply reads_predicate_none hrest h
  | 11, _ => apply reads_signed_primary (Kind.ofKind?_of_opens hfirst) h
  | 1, _ | 2, _ | 5, _ | 6, _ | 7, _ | 8, _ | 9, _ | 10, _ =>
      apply reads_atLevel_single hbound hrest h

/-- What a tier reads, every lower one reads too, if nothing follows that binds to it. -/
theorem reads_tier_of_le {low : Nat} (hbound : inner.bound ≠ 0) (hle : low ≤ level)
    (hlevel : level ≤ 12) (hrest : (leading rest).binds < low)
    (hfirst : level ≤ (leading ws).opens)
    (h : (tier inner level).Reads (.ofWords ws) e (.ofWords rest)) :
  (tier inner low).Reads (.ofWords ws) e (.ofWords rest)
  := by
  induction hle with
  | refl => apply h
  | @step level hle ih =>
      have hbinds := Nat.lt_of_lt_of_le hrest hle
      apply ih (by omega) (by omega)
      apply reads_tier_of_succ hbound hlevel hbinds hfirst h

end Grammar

end SqlFront
