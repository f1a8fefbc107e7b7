import SqlFront.Grammar.Query
import SqlFront.Proofs.Grammar.ExpressionTidy
import SqlFront.Proofs.Grammar.QueryFollows

/-!
# Queries are tidy

The productions of queries are tidy if those nested in them are, and so are the productions that may
be nested some levels deep.
-/

namespace SqlFront.Grammar

open Production

theorem quantifier?_tidy :
  quantifier?.Tidy
  := by
  apply (tidy_accept rfl).bind_ite (tidy_pure _)
  apply (tidy_accept rfl).bind_ite (tidy_pure _) (tidy_pure _)

theorem joinKind?_tidy (natural : Bool) :
  (joinKind? natural).Tidy
  := by
  have hword : ∀ (kind : JoinKind) (k : Kind), k ≠ .eof → TidyAt [k] (do
      let _ ← advance
      return some kind : Production (Option JoinKind)) := by
    intro kind k hk
    apply tidy_advance_bind hk
    intro t
    apply tidy_pure
  have houter : ∀ (kind : JoinKind) (ks : List Kind), TidyAt ks (do
      let _ ← accept (.keyword .OUTER)
      return some kind : Production (Option JoinKind)) := by
    intro kind ks
    apply (tidy_accept rfl).bind
    intro outer
    apply tidy_pure
  apply tidy_peek_bind (if natural then expected "'JOIN'" else pure none)
  · intro t
    split
    · apply tidy_pure
    · next h => exact hword _ _ (by simp [h])
    · next h => exact hword _ _ (by simp [h])
    · next h =>
        rw [h]
        apply tidy_advance_bind (by simp)
        intro u
        apply (tidy_accept rfl).bind_ite (tidy_pure _)
        apply (tidy_accept rfl).bind_ite (tidy_pure _)
        apply houter
    · next h =>
        rw [h]
        apply tidy_advance_bind (by simp)
        intro u
        apply houter
    · next h =>
        rw [h]
        apply tidy_advance_bind (by simp)
        intro u
        apply houter
    · next h => exact hword _ _ (by simp [h])
    · next h => exact hword _ _ (by simp [h])
    · apply tidy_ite (tidy_expected _) (tidy_pure _)
  · intro t ht
    rcases Kind.ends_iff.mp ht with h | h <;> simp only [h]

variable {inner : Inner} (hin : inner.Tidy)

include hin

/-! ### Relations -/

theorem primaryWith_tidy {within : Position → Production Relation}
    (hwithin : ∀ start, (within start).Consumes) (h : ∀ start, (within start).Tidy) :
  (primaryWith inner within).Tidy
  := by
  have hnested : ∀ ks, TidyAt (.leftParen :: ks) (do
      let _ ← advance
      let r ← within (← here)
      let _ ← expect .rightParen
      return .nested r : Production Primary) := by
    intro ks
    apply tidy_advance_bind (by simp)
    intro u
    apply Tidy.seen
    apply tidy_here_bind
    · intro begins
      apply (hwithin begins).bind
    · intro begins
      apply (h begins).bind
      intro r
      apply (tidy_expect rfl).bind
      intro v
      apply tidy_pure
  apply tidy_here_bind
  · intro start
    apply consumes_bind
    intro isParen
    apply consumes_ite
    · apply consumes_bind
      intro t
      apply consumes_ite
      · apply consumes_bind
        intro u
        apply (queryToParen_consumes inner).bind
      · apply consumes_bind
        intro u
        apply consumes_bind
        intro begins
        apply (hwithin begins).bind
    · apply (qualifiedName_consumes inner.bound).bind
  · intro start
    apply tidy_nextIs_bind_ite rfl
    · apply tidy_second_bind rfl _ _ fun t ht => if_neg (not_beginsQuery_of_ends ht)
      intro t
      apply tidy_ite
      · apply tidy_advance_bind (by simp)
        intro u
        apply (queryToParen_tidy hin).bind
        intro q
        apply label?_tidy.bind
        intro label
        apply (tidy_spanFrom start).bind
        intro region
        apply tidy_pure
      · apply hnested
    · apply (qualifiedName_tidy inner.bound).bind
      intro name
      apply label?_tidy.bind
      intro label
      apply (tidy_spanFrom start).bind
      intro region
      apply tidy_pure

theorem criterion?_tidy (natural : Bool) :
  (criterion? inner natural).Tidy
  := by
  apply tidy_ite (tidy_pure _)
  apply (tidy_accept rfl).bind_ite
  · apply hin.expression.bind
    intro condition
    apply tidy_pure
  · apply (tidy_accept rfl).bind_ite
    · apply (identList_tidy inner.bound).bind
      intro names
      apply tidy_pure
    · apply tidy_pure

/-- A join that follows takes a token; that none follows says nothing of the place. -/
theorem joinWith?_tidy {primary : Production Primary} (h : primary.Tidy) :
  (joinWith? inner primary).Tidy
  := by
  apply tidy_here_bind_of
  · intro start start' s v s' hreads hle
    simp only [reads_bind] at hreads ⊢
    obtain ⟨natural, m, hnatural, o, n, ho, hjoin⟩ := hreads
    cases o with
    | none => exact ⟨natural, m, hnatural, none, n, ho, hjoin⟩
    | some kind =>
        have hlt := (expect_consumes (k := .keyword .JOIN) (by simp)).bind _ n v s' hjoin
        have hm := hnatural.length_le
        have hn := ho.length_le
        omega
  · intro start
    apply (tidy_accept rfl).bind
    intro natural
    apply (joinKind?_tidy natural).bind
    intro o
    cases o with
    | none => apply tidy_pure
    | some kind =>
        apply (tidy_expect rfl).bind
        intro t
        apply h.bind
        intro relation
        apply (criterion?_tidy hin natural).bind
        intro criterion
        apply (tidy_spanFrom start).bind
        intro region
        apply tidy_pure

theorem relationWith_tidy {primary : Production Primary} (h : primary.Tidy) (start : Position) :
  (relationWith inner primary start).Tidy
  := by
  apply hin.primary.bind
  intro first
  apply ((joinWith?_tidy hin h).collect inner.bound []).bind
  intro joins
  apply (tidy_spanFrom start).bind
  intro region
  apply tidy_pure

theorem relationWith_consumes (primary : Production Primary) (start : Position) :
  (relationWith inner primary start).Consumes
  := hin.primary_consumes.bind _

theorem primaryUpTo_tidy (n : Nat) :
  (primaryUpTo inner n).Tidy
  := by
  induction n with
  | zero => exact tidy_fail fun _ => rfl
  | succ n ih =>
      apply primaryWith_tidy hin
      · intro start
        apply relationWith_consumes hin
      · intro start
        apply relationWith_tidy hin ih

theorem primary_tidy :
  (primary inner).Tidy
  := primaryUpTo_tidy hin inner.bound

theorem relation_tidy :
  (relation inner).Tidy
  := by
  apply tidy_here_bind
  · intro start
    apply relationWith_consumes hin
  · intro start
    apply relationWith_tidy hin (primary_tidy hin)

/-! ### Selections -/

theorem selectItem_tidy :
  (selectItem inner).Tidy
  := by
  apply tidy_here_bind
  · intro start
    apply hin.expression_consumes.bind
  · intro start
    apply hin.expression.bind
    intro value
    apply label?_tidy.bind
    intro label
    apply (tidy_spanFrom start).bind
    intro region
    apply tidy_pure

theorem groupingSet_tidy :
  (groupingSet inner).Tidy
  := by
  apply tidy_nextAre_bind_ite rfl rfl
  · apply tidy_advance_bind (by simp)
    intro t
    apply tidy_advance_bind (by simp)
    intro u
    apply tidy_pure
  · apply hin.expression.bind
    intro e
    split <;> apply tidy_pure

theorem groupingKind_tidy :
  (groupingKind inner).Tidy
  := by
  apply (tidy_accept rfl).bind_ite
  · apply (tidy_accept rfl).bind_ite (tidy_pure _)
    apply (tidy_accept rfl).bind_ite (tidy_pure _) (tidy_expected _)
  · apply (tidy_accept rfl).bind_ite
    · apply (tidy_expect rfl).bind
      intro t
      apply (tidy_expect rfl).bind
      intro u
      apply ((groupingSet_tidy hin).commaList inner.bound).bind
      intro sets
      apply (tidy_expect rfl).bind
      intro v
      apply tidy_pure
    · apply tidy_pure

theorem groupBy?_tidy :
  (groupBy? inner).Tidy
  := by
  apply tidy_here_bind_of
  · intro start start'
    apply afterToken?_idle (by simp)
  · intro start
    apply Tidy.afterToken? _ rfl
    apply (tidy_expect rfl).bind
    intro t
    apply (hin.expression.commaList inner.bound).bind
    intro keys
    apply (groupingKind_tidy hin).bind
    intro grouping
    apply (tidy_spanFrom start).bind
    intro region
    apply tidy_pure

theorem relations_tidy :
  (relations inner).Tidy
  := (tidy_accept rfl).bind_ite ((relation_tidy hin).commaList inner.bound) (tidy_pure _)

theorem select_tidy :
  (select inner).Tidy
  := by
  apply tidy_here_bind
  · intro start
    apply (expect_consumes (by simp)).bind
  · intro start
    apply (tidy_expect rfl).bind
    intro t
    apply quantifier?_tidy.bind
    intro quantifier
    apply ((selectItem_tidy hin).commaList inner.bound).bind
    intro items
    apply (relations_tidy hin).bind
    intro relations
    apply (hin.expression.afterToken? rfl).bind
    intro condition
    apply (groupBy?_tidy hin).bind
    intro grouping
    apply (hin.expression.afterToken? rfl).bind
    intro having
    apply (tidy_spanFrom start).bind
    intro region
    apply tidy_pure

/-! ### Set operators -/

theorem simpleBody_tidy :
  (simpleBody inner).Tidy
  := by
  unfold simpleBody
  apply tidy_peek_bind (expected "query")
  · intro t
    dsimp only
    split
    · apply (select_tidy hin).bind
      intro s
      apply tidy_pure
    · next h =>
        rw [h]
        apply tidy_advance_bind (by simp)
        intro u
        apply (qualifiedName_tidy inner.bound).bind
        intro name
        apply (tidy_spanFrom t.span.start).bind
        intro region
        apply tidy_pure
    · next h =>
        rw [h]
        apply tidy_advance_bind (by simp)
        intro u
        apply (hin.expression.commaList inner.bound).bind
        intro rows
        apply (tidy_spanFrom t.span.start).bind
        intro region
        apply tidy_pure
    · next h =>
        rw [h]
        apply tidy_advance_bind (by simp)
        intro u
        apply (queryToParen_tidy hin).bind
        intro q
        apply (tidy_spanFrom t.span.start).bind
        intro region
        apply tidy_pure
    · apply tidy_expected
  · intro t ht
    rcases Kind.ends_iff.mp ht with h | h <;> simp only [h]

theorem simpleBody_consumes :
  (simpleBody inner).Consumes
  := by
  obtain ⟨G, hG, hobeys⟩ := hin.obeys
  exact Obeys.consumes (simpleBody_obeys hobeys hG) fun _ _ => Rules.SimpleBodyRule.ne_nil

omit hin in
theorem combinations_tidy {op? : Kind → Option SetOp} (hop : ∀ k op, op? k = some op → k.belongs)
    (start : Position) {operand : Production Body} (h : operand.Tidy) (n : Nat) (left : Body) :
  (combinations op? start operand n left).Tidy
  := by
  induction n generalizing left with
  | zero => exact tidy_fail fun _ => rfl
  | succ n ih =>
      apply tidy_peek_bind (pure left)
      · intro t
        cases hkind : op? t.kind with
        | none => apply tidy_pure
        | some op =>
            apply tidy_advance_bind (Kind.ne_eof_of_belongs (hop _ _ hkind))
            intro u
            apply quantifier?_tidy.bind
            intro quantifier
            apply h.bind
            intro right
            apply (tidy_spanFrom start).bind
            intro region
            apply ih
      · intro t ht
        cases hkind : op? t.kind with
        | none => rfl
        | some op => exact absurd ht (Kind.not_ends_of_belongs (hop _ _ hkind))

omit hin in
theorem combined_consumes (n : Nat) (op? : Kind → Option SetOp) {operand : Production Body}
    (hconsumes : operand.Consumes) :
  (combined n op? operand).Consumes
  := by
  apply consumes_bind
  intro start
  apply hconsumes.bind

omit hin in
theorem combined_tidy {op? : Kind → Option SetOp} (hop : ∀ k op, op? k = some op → k.belongs)
    {operand : Production Body} (hconsumes : operand.Consumes) (h : operand.Tidy) (n : Nat) :
  (combined n op? operand).Tidy
  := by
  apply tidy_here_bind
  · intro start
    apply hconsumes.bind
  · intro start
    apply h.bind
    intro left
    apply combinations_tidy hop start h

theorem body_tidy :
  (body inner).Tidy
  := by
  apply combined_tidy belongs_of_setOp
  · apply combined_consumes
    apply simpleBody_consumes hin
  · apply combined_tidy belongs_of_intersect (simpleBody_consumes hin) (simpleBody_tidy hin)

theorem body_consumes :
  (body inner).Consumes
  := by
  apply combined_consumes
  apply combined_consumes
  apply simpleBody_consumes hin

/-! ### Whole queries -/

omit hin in
theorem ascending?_tidy :
  ascending?.Tidy
  := by
  apply (tidy_accept rfl).bind_ite (tidy_pure _)
  apply (tidy_accept rfl).bind_ite (tidy_pure _) (tidy_pure _)

theorem sortItem_tidy :
  (sortItem inner).Tidy
  := by
  apply tidy_here_bind
  · intro start
    apply hin.expression_consumes.bind
  · intro start
    apply hin.expression.bind
    intro key
    apply ascending?_tidy.bind
    intro ascending
    apply Tidy.bind
    · apply Tidy.afterToken? _ rfl
      apply (tidy_accept rfl).bind_ite (tidy_pure _)
      apply (tidy_accept rfl).bind_ite (tidy_pure _) (tidy_expected _)
    · intro nullsFirst
      apply (tidy_spanFrom start).bind
      intro region
      apply tidy_pure

theorem namedQuery_tidy :
  (namedQuery inner).Tidy
  := by
  apply tidy_here_bind
  · intro start
    apply ident_consumes.bind
  · intro start
    apply ident_tidy.bind
    intro name
    apply (columns_tidy inner.bound).bind
    intro columns
    apply (tidy_accept rfl).bind
    intro named
    apply (tidy_expect rfl).bind
    intro t
    apply (queryToParen_tidy hin).bind
    intro q
    apply (tidy_spanFrom start).bind
    intro region
    apply tidy_pure

theorem namedQueries_tidy :
  (namedQueries inner).Tidy
  := (tidy_accept rfl).bind_ite ((namedQuery_tidy hin).commaList inner.bound) (tidy_pure _)

theorem order_tidy :
  (order inner).Tidy
  := by
  apply (tidy_accept rfl).bind_ite
  · apply (tidy_expect rfl).bind
    intro t
    apply (sortItem_tidy hin).commaList
  · apply tidy_pure

theorem query_tidy :
  (query inner).Tidy
  := by
  apply tidy_here_bind
  · intro start
    apply consumes_bind
    intro named
    apply (body_consumes hin).bind
  · intro start
    apply (namedQueries_tidy hin).bind
    intro named
    apply (body_tidy hin).bind
    intro body
    apply (order_tidy hin).bind
    intro order
    apply (hin.expression.afterToken? rfl).bind
    intro limit
    apply (tidy_spanFrom start).bind
    intro region
    apply tidy_pure

/-! ### Levels of nesting -/

omit hin in
/-- What may be nested so many levels deep is tidy. -/
theorem Inner.nested_tidy (bound levels : Nat) :
  (Inner.nested bound levels).Tidy
  := by
  induction levels with
  | zero =>
      constructor
      case obeys => exact ⟨_, Rules.within_nonempty 0, Inner.nested_obeys bound 0⟩
      all_goals exact tidy_fail fun _ => rfl
  | succ levels ih =>
      exact {
        expression := expression_tidy ih
        negation := negation_tidy ih
        signed := signed_tidy ih
        query := query_tidy ih
        primary := primary_tidy ih
        dataType := dataType_tidy ih
        obeys := ⟨_, Rules.within_nonempty _, Inner.nested_obeys bound _⟩ }

end SqlFront.Grammar
