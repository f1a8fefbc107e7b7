import SqlFront.Grammar.Query
import SqlFront.Proofs.Grammar.ExpressionFollows

/-!
# Queries wherever they lie

The productions of queries follow each other if those nested in them do, and so do the productions
that may be nested some levels deep.
-/

namespace SqlFront.Grammar

open Production

variable {c : Embedding} {limit n n' : Nat} {k : Kind}

theorem quantifier?_follows :
  Natural c limit quantifier?
  := by
  apply (follows_accept rfl).bind_ite
  · apply follows_pure rfl
  · apply (follows_accept rfl).bind_ite
    · apply follows_pure rfl
    · apply follows_pure rfl

theorem belongs_of_setOp (k : Kind) (op : SetOp) (h : SetOp.ofKind? k = some op) :
  k.belongs
  := by
  cases k <;> first | rfl | contradiction

theorem belongs_of_intersect (k : Kind) (op : SetOp)
    (h : (if k = .keyword .INTERSECT then some SetOp.intersect else none) = some op) :
  k.belongs
  := by
  split at h
  · next hk =>
      rw [hk]
      rfl
  · contradiction

variable {inner inner' : Inner} (hin : inner.Follows c limit inner')

include hin

/-! ### Relations -/

theorem primaryWith_follows {within within' : Position → Production Relation}
    (h : ∀ start, Follows c (limit - 1) (within start) (within' (move c.map start))) :
  Follows c limit (primaryWith inner within) (primaryWith inner' within')
  := by
  apply follows_here.bind
  intro start
  apply follows_nextIs_bind_ite
  · apply follows_second_bind rfl
    intro t
    apply follows_ite
    · apply follows_advance_bind rfl
      intro u
      apply (queryToParen_follows hin).bind
      intro q
      apply label?_follows.bind
      intro label
      apply (follows_spanFrom start).bind
      intro region
      apply follows_pure rfl
    · apply follows_advance_lt rfl
      intro u
      apply follows_here.bind
      intro begins
      apply (h begins).bind
      intro r
      apply (follows_expect rfl).bind
      intro v
      apply follows_pure rfl
  · apply (qualifiedName_follows hin.bound).bind
    intro name
    apply label?_follows.bind
    intro label
    apply (follows_spanFrom start).bind
    intro region
    apply follows_pure rfl

omit hin in
theorem joinKind?_follows (natural : Bool) :
  Natural c limit (joinKind? natural)
  := by
  have hword : ∀ (kind : JoinKind) (k : Kind), k.belongs → FollowsAt c limit [k] (do
      let _ ← advance
      return some kind : Production (Option JoinKind)) (do
      let _ ← advance
      return some kind : Production (Option JoinKind)) := by
    intro kind k hk
    apply follows_advance_bind hk
    intro t
    apply follows_pure rfl
  have houter : ∀ kind : JoinKind, Natural c limit (do
      let _ ← accept (.keyword .OUTER)
      return some kind : Production (Option JoinKind)) := by
    intro kind
    apply (follows_accept rfl).bind
    intro outer
    apply follows_pure rfl
  apply follows_peek_bind
  intro t
  rw [Token.kind_move]
  split
  · apply follows_pure rfl
  · next h => exact hword _ _ (by rw [h]; rfl)
  · next h => exact hword _ _ (by rw [h]; rfl)
  · next h =>
      rw [h]
      apply follows_advance_bind rfl
      intro u
      apply (follows_accept rfl).bind_ite
      · apply follows_pure rfl
      · apply (follows_accept rfl).bind_ite
        · apply follows_pure rfl
        · apply houter
  · next h =>
      rw [h]
      apply follows_advance_bind rfl
      intro u
      apply houter
  · next h =>
      rw [h]
      apply follows_advance_bind rfl
      intro u
      apply houter
  · next h => exact hword _ _ (by rw [h]; rfl)
  · next h => exact hword _ _ (by rw [h]; rfl)
  · apply follows_ite
    · apply follows_expected
    · apply follows_pure rfl

theorem criterion?_follows (natural : Bool) :
  Follows c limit (criterion? inner natural) (criterion? inner' natural)
  := by
  apply follows_ite
  · apply follows_pure rfl
  · apply (follows_accept rfl).bind_ite
    · apply hin.expression.bind
      intro condition
      apply follows_pure rfl
    · apply (follows_accept rfl).bind_ite
      · apply (identList_follows hin.bound).bind
        intro names
        apply follows_pure rfl
      · apply follows_pure rfl

theorem joinWith?_follows {primary primary' : Production Primary}
    (h : Follows c limit primary primary') :
  Follows c limit (joinWith? inner primary) (joinWith? inner' primary')
  := by
  apply follows_here.bind
  intro start
  apply (follows_accept rfl).bind
  intro natural
  apply (joinKind?_follows natural).bind
  intro o
  cases o with
  | none => apply follows_pure rfl
  | some kind =>
      apply (follows_expect rfl).bind
      intro t
      apply h.bind
      intro relation
      apply (criterion?_follows hin natural).bind
      intro criterion
      apply (follows_spanFrom start).bind
      intro region
      apply follows_pure
      cases criterion <;> rfl

omit hin in
theorem joinWith?_progresses (inner : Inner) (primary : Production Primary) :
  (joinWith? inner primary).Progresses
  := by
  apply progresses_bind
  intro start
  apply progresses_bind
  intro natural
  apply progresses_bind
  intro o
  cases o with
  | none => apply progresses_none
  | some kind => apply ((expect_consumes (by simp)).bind _).progresses

theorem relationWith_follows {primary primary' : Production Primary}
    (h : Follows c limit primary primary') (start : Position) :
  Follows c limit (relationWith inner primary start) (relationWith inner' primary' (move c.map start))
  := by
  apply hin.primary.bind
  intro first
  apply ((joinWith?_follows hin h).collect (joinWith?_progresses inner primary) hin.bound rfl).bind
  intro joins
  apply (follows_spanFrom start).bind
  intro region
  apply follows_pure
  simp [move, Relation.move]

/-- Parentheses that open no level are as many as the bound allows, since each is a token. -/
theorem primaryUpTo_follows (hn : Enough limit n n') :
  Follows c limit (primaryUpTo inner n) (primaryUpTo inner' n')
  := by
  induction limit generalizing n n' with
  | zero => apply follows_zero
  | succ limit ih =>
      obtain ⟨n, n', rfl, rfl, hless⟩ := hn.exists_succ
      have hbehind := hin.mono (Nat.le_succ limit)
      apply primaryWith_follows hin
      intro start
      apply relationWith_follows hbehind (ih hbehind hless)

theorem primary_follows :
  Follows c limit (primary inner) (primary inner')
  := primaryUpTo_follows hin hin.bound

theorem relation_follows :
  Follows c limit (relation inner) (relation inner')
  := by
  apply follows_here.bind
  intro start
  apply relationWith_follows hin (primary_follows hin)

/-! ### Selections -/

theorem selectItem_follows :
  Follows c limit (selectItem inner) (selectItem inner')
  := by
  apply follows_here.bind
  intro start
  apply hin.expression.bind
  intro value
  apply label?_follows.bind
  intro label
  apply (follows_spanFrom start).bind
  intro region
  apply follows_pure rfl

theorem groupingSet_follows :
  Follows c limit (groupingSet inner) (groupingSet inner')
  := by
  apply follows_nextAre_bind_ite rfl
  · apply follows_advance_bind rfl
    intro t
    apply follows_advance_bind rfl
    intro u
    apply follows_pure rfl
  · apply hin.expression.bind
    intro e
    obtain ⟨form, span⟩ := e
    cases form <;> apply follows_pure <;> simp [move, Expression.move, Form.move]

theorem groupingKind_follows :
  Follows c limit (groupingKind inner) (groupingKind inner')
  := by
  apply (follows_accept rfl).bind_ite
  · apply (follows_accept rfl).bind_ite
    · apply follows_pure rfl
    · apply (follows_accept rfl).bind_ite
      · apply follows_pure rfl
      · apply follows_expected
  · apply (follows_accept rfl).bind_ite
    · apply (follows_expect rfl).bind
      intro t
      apply (follows_expect rfl).bind
      intro u
      apply ((groupingSet_follows hin).commaList hin.bound).bind
      intro sets
      apply (follows_expect rfl).bind
      intro v
      apply follows_pure
      simp [move, Grouping.move]
    · apply follows_pure rfl

theorem groupBy?_follows :
  Follows c limit (groupBy? inner) (groupBy? inner')
  := by
  apply follows_here.bind
  intro start
  apply Follows.afterToken? _ rfl
  apply (follows_expect rfl).bind
  intro t
  apply (hin.expression.commaList hin.bound).bind
  intro keys
  apply (groupingKind_follows hin).bind
  intro grouping
  apply (follows_spanFrom start).bind
  intro region
  apply follows_pure
  simp [move, GroupBy.move]

theorem relations_follows :
  Follows c limit (relations inner) (relations inner')
  := by
  apply (follows_accept rfl).bind_ite
  · apply (relation_follows hin).commaList hin.bound
  · apply follows_pure rfl

theorem select_follows :
  Follows c limit (select inner) (select inner')
  := by
  apply follows_here.bind
  intro start
  apply (follows_expect rfl).bind
  intro t
  apply quantifier?_follows.bind
  intro quantifier
  apply ((selectItem_follows hin).commaList hin.bound).bind
  intro items
  apply (relations_follows hin).bind
  intro relations
  apply (hin.expression.afterToken? rfl).bind
  intro condition
  apply (groupBy?_follows hin).bind
  intro grouping
  apply (hin.expression.afterToken? rfl).bind
  intro having
  apply (follows_spanFrom start).bind
  intro region
  apply follows_pure
  rw [move_eq c.map quantifier]
  simp [move, Select.move]

/-! ### Set operators -/

theorem simpleBody_follows :
  Follows c limit (simpleBody inner) (simpleBody inner')
  := by
  unfold simpleBody
  apply follows_peek_bind
  intro t
  rw [Token.kind_move]
  split
  · apply (select_follows hin).bind
    intro s
    apply follows_pure rfl
  · next h =>
      rw [h]
      apply follows_advance_bind rfl
      intro u
      apply (qualifiedName_follows hin.bound).bind
      intro name
      apply (follows_spanFrom t.span.start).bind
      intro region
      apply follows_pure rfl
  · next h =>
      rw [h]
      apply follows_advance_bind rfl
      intro u
      apply (hin.expression.commaList hin.bound).bind
      intro rows
      apply (follows_spanFrom t.span.start).bind
      intro region
      apply follows_pure
      simp [move, Body.move]
  · next h =>
      rw [h]
      apply follows_advance_bind rfl
      intro u
      apply (queryToParen_follows hin).bind
      intro q
      apply (follows_spanFrom t.span.start).bind
      intro region
      cases q
      apply follows_pure rfl
  · apply follows_expected

omit hin in
theorem combinations_follows {op? : Kind → Option SetOp}
    (hop : ∀ k op, op? k = some op → k.belongs) {operand operand' : Production Body}
    (h : Follows c limit operand operand') (start : Position) (hn : Enough limit n n')
    (left : Body) :
  Follows c limit (combinations op? start operand n left)
    (combinations op? (move c.map start) operand' n' (move c.map left))
  := by
  induction limit generalizing n n' left with
  | zero => apply follows_zero
  | succ limit ih =>
      obtain ⟨n, n', rfl, rfl, hless⟩ := hn.exists_succ
      have hbehind : Follows c limit operand operand' := h.mono (Nat.le_succ limit)
      apply follows_peek_bind
      intro t
      rw [Token.kind_move]
      cases hkind : op? t.kind with
      | none => apply follows_pure rfl
      | some op =>
          apply follows_advance_lt (hop _ _ hkind)
          intro u
          apply quantifier?_follows.bind
          intro quantifier
          apply hbehind.bind
          intro right
          apply (follows_spanFrom start).bind
          intro region
          rw [move_eq c.map quantifier]
          apply ih hbehind hless (.combination op quantifier left right region)

omit hin in
theorem combined_follows (hn : Enough limit n n') {op? : Kind → Option SetOp}
    (hop : ∀ k op, op? k = some op → k.belongs) {operand operand' : Production Body}
    (h : Follows c limit operand operand') :
  Follows c limit (combined n op? operand) (combined n' op? operand')
  := by
  apply follows_here.bind
  intro start
  apply h.bind
  intro left
  apply combinations_follows hop h start hn

theorem body_follows :
  Follows c limit (body inner) (body inner')
  := by
  apply combined_follows hin.bound belongs_of_setOp
  apply combined_follows hin.bound belongs_of_intersect
  apply simpleBody_follows hin

/-! ### Whole queries -/

omit hin in
theorem ascending?_follows :
  Natural c limit ascending?
  := by
  apply (follows_accept rfl).bind_ite
  · apply follows_pure rfl
  · apply (follows_accept rfl).bind_ite
    · apply follows_pure rfl
    · apply follows_pure rfl

theorem sortItem_follows :
  Follows c limit (sortItem inner) (sortItem inner')
  := by
  apply follows_here.bind
  intro start
  apply hin.expression.bind
  intro key
  apply ascending?_follows.bind
  intro ascending
  apply Follows.bind (α := Option Bool)
  · apply Follows.afterToken? _ rfl
    apply (follows_accept rfl).bind_ite
    · apply follows_pure rfl
    · apply (follows_accept rfl).bind_ite
      · apply follows_pure rfl
      · apply follows_expected
  · intro nullsFirst
    apply (follows_spanFrom start).bind
    intro region
    apply follows_pure
    rw [move_eq c.map ascending, move_eq c.map nullsFirst]
    rfl

theorem namedQuery_follows :
  Follows c limit (namedQuery inner) (namedQuery inner')
  := by
  apply follows_here.bind
  intro start
  apply ident_follows.bind
  intro name
  apply (columns_follows hin.bound).bind
  intro columns
  apply (follows_accept rfl).bind
  intro named
  apply (follows_expect rfl).bind
  intro t
  apply (queryToParen_follows hin).bind
  intro q
  apply (follows_spanFrom start).bind
  intro region
  apply follows_pure rfl

theorem namedQueries_follows :
  Follows c limit (namedQueries inner) (namedQueries inner')
  := by
  apply (follows_accept rfl).bind_ite
  · apply (namedQuery_follows hin).commaList hin.bound
  · apply follows_pure rfl

theorem order_follows :
  Follows c limit (order inner) (order inner')
  := by
  apply (follows_accept rfl).bind_ite
  · apply (follows_expect rfl).bind
    intro t
    apply (sortItem_follows hin).commaList hin.bound
  · apply follows_pure rfl

theorem query_follows :
  Follows c limit (query inner) (query inner')
  := by
  apply follows_here.bind
  intro start
  apply (namedQueries_follows hin).bind
  intro named
  apply (body_follows hin).bind
  intro body
  apply (order_follows hin).bind
  intro order
  apply (hin.expression.afterToken? rfl).bind
  intro limit
  apply (follows_spanFrom start).bind
  intro region
  apply follows_pure
  simp [move, Query.move]

/-! ### Levels of nesting -/

omit hin in
theorem Inner.bound_nested (bound levels : Nat) :
  (Inner.nested bound levels).bound = bound
  := by
  cases levels <;> rfl

omit hin in
/-- Levels of productions follow each other if the levels further in do. -/
theorem Inner.nested_follows {levels levels' : Nat} (hn : Enough limit n n')
    (h : (Inner.nested n levels).Follows c limit (Inner.nested n' levels')) :
  (Inner.nested n (levels + 1)).Follows c limit (Inner.nested n' (levels' + 1))
  where
  bound := hn
  expression := expression_follows h
  negation := negation_follows h
  signed := signed_follows h
  query := query_follows h
  primary := primary_follows h
  dataType := dataType_follows h

omit hin in
/-- However deep the productions may be nested, they give the same wherever the tape lies. -/
theorem Inner.nested_natural (hn : Enough limit n n') (levels : Nat) :
  (Inner.nested n levels).Follows c limit (Inner.nested n' levels)
  := by
  induction levels with
  | zero =>
      have hfail : ∀ {α : Type} [Movable α],
          Natural (α := α) c limit (.fail fun _ => .tooDeep) :=
        follows_fail fun _ => rfl
      exact ⟨hn, hfail, hfail, hfail, hfail, hfail, hfail⟩
  | succ levels ih => apply Inner.nested_follows hn ih

end SqlFront.Grammar
