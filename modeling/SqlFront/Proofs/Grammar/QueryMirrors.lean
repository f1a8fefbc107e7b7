import SqlFront.Grammar.Query
import SqlFront.Proofs.Grammar.ExpressionMirrors

/-!
# Queries side by side

The productions of queries give the same on tapes that mirror each other if those nested in them do,
and so do the productions that may be nested some levels deep.
-/

namespace SqlFront.Grammar

open Production

variable {c : Mirror}

theorem quantifier?_mirrored :
  Mirrored c Eq quantifier? quantifier?
  := by
  apply (mirrored_accept rfl).bind_ite
  · apply mirrored_pure rfl
  · apply (mirrored_accept rfl).bind_ite
    · apply mirrored_pure rfl
    · apply mirrored_pure rfl

theorem joinKind?_mirrored (natural : Bool) :
  Mirrored c Eq (joinKind? natural) (joinKind? natural)
  := by
  have hword : ∀ (kind : JoinKind) (k : Kind), k ≠ .eof → MirroredAt c [k] Eq (do
      let _ ← advance
      return some kind : Production (Option JoinKind)) (do
      let _ ← advance
      return some kind : Production (Option JoinKind)) := by
    intro kind k hk
    apply mirrored_advance_bind hk
    intro _ _ _ _
    apply mirrored_pure rfl
  have houter : ∀ kind : JoinKind, Mirrored c Eq (do
      let _ ← accept (.keyword .OUTER)
      return some kind : Production (Option JoinKind)) (do
      let _ ← accept (.keyword .OUTER)
      return some kind : Production (Option JoinKind)) := by
    intro kind
    apply (mirrored_accept rfl).bind
    intro _ _ _
    apply mirrored_pure rfl
  have hnone : ∀ ks, MirroredAt c ks Eq
      (if natural then expected "'JOIN'" else return none : Production (Option JoinKind))
      (if natural then expected "'JOIN'" else return none : Production (Option JoinKind)) := by
    intro ks
    apply mirrored_ite
    · apply mirrored_expected
    · apply mirrored_pure rfl
  apply mirrored_peek_match
  · intro t u h
    rw [h.kind_eq]
    split
    · apply mirrored_pure rfl
    · next hk => exact hword _ _ (by simp [hk])
    · next hk => exact hword _ _ (by simp [hk])
    · next hk =>
        rw [hk]
        apply mirrored_advance_bind (by simp)
        intro _ _ _ _
        apply (mirrored_accept rfl).bind_ite
        · apply mirrored_pure rfl
        · apply (mirrored_accept rfl).bind_ite
          · apply mirrored_pure rfl
          · apply houter
    · next hk =>
        rw [hk]
        apply mirrored_advance_bind (by simp)
        intro _ _ _ _
        apply houter
    · next hk =>
        rw [hk]
        apply mirrored_advance_bind (by simp)
        intro _ _ _ _
        apply houter
    · next hk => exact hword _ _ (by simp [hk])
    · next hk => exact hword _ _ (by simp [hk])
    · apply hnone
  · intro t u ht hu
    rw [ht]
    rcases Mirror.closes_of_mem_head? hu with hu | hu <;> rw [hu] <;> apply hnone

variable {inner : Inner} (hin : inner.Mirrored c)

include hin

/-! ### Relations -/

theorem primaryWith_mirrored {within : Position → Production Relation}
    (h : ∀ start, Mirrored c c.likeness.Same (within start) (within start)) :
  Mirrored c c.likeness.Same (primaryWith inner within) (primaryWith inner within)
  := by
  apply mirrored_here.bind
  rintro start _ rfl
  apply mirrored_nextIs_bind_ite rfl
  · apply mirrored_second_bind (by simp)
    intro t u hsecond
    rw [hsecond.congr beginsQuery rfl rfl]
    apply mirrored_ite
    · apply mirrored_advance_bind (by simp)
      intro _ _ _ _
      apply ((queryToParen_mirrored hin).seen _).bind_seen
      intro q q' hq
      apply label?_mirrored.bind
      intro label label' hlabel
      apply (mirrored_spanFrom start).bind
      rintro region _ rfl
      apply mirrored_pure
      simpa [Likeness.view_primary] using ⟨hq, hlabel⟩
    · apply mirrored_advance_bind (by simp)
      intro _ _ _ _
      apply mirrored_here.bind
      rintro begins _ rfl
      apply (h begins).bind
      intro r r' hr
      apply (mirrored_expect (by simp)).bind
      intro _ _ _
      apply mirrored_pure
      simpa [Likeness.view_primary] using hr
  · apply (qualifiedName_mirrored inner.bound).bind
    intro name name' hname
    apply label?_mirrored.bind
    intro label label' hlabel
    apply (mirrored_spanFrom start).bind
    rintro region _ rfl
    apply mirrored_pure
    simpa [Likeness.view_primary] using ⟨hname, hlabel⟩

theorem criterion?_mirrored (natural : Bool) :
  Mirrored c c.likeness.Same (criterion? inner natural) (criterion? inner natural)
  := by
  apply mirrored_ite
  · apply mirrored_same
  · apply (mirrored_accept rfl).bind_ite
    · apply hin.expression.bind
      intro condition condition' hcondition
      apply mirrored_pure
      simpa [Likeness.view_criterion] using hcondition
    · apply (mirrored_accept rfl).bind_ite
      · apply (identList_mirrored inner.bound).bind
        intro names names' hnames
        apply mirrored_pure
        simpa [Likeness.view_criterion] using hnames
      · apply mirrored_same

theorem joinWith?_mirrored {primary : Production Primary}
    (h : Mirrored c c.likeness.Same primary primary) :
  Mirrored c c.likeness.Same (joinWith? inner primary) (joinWith? inner primary)
  := by
  apply mirrored_here.bind
  rintro start _ rfl
  apply (mirrored_accept rfl).bind
  rintro natural _ rfl
  apply (joinKind?_mirrored natural).bind
  rintro o _ rfl
  cases o with
  | none => apply mirrored_same
  | some kind =>
      apply (mirrored_expect (by simp)).bind
      intro _ _ _
      apply h.bind
      intro relation relation' hrelation
      apply (criterion?_mirrored hin natural).bind
      intro criterion criterion' hcriterion
      apply (mirrored_spanFrom start).bind
      rintro region _ rfl
      apply mirrored_pure
      simpa using ⟨hrelation, hcriterion⟩

theorem relationWith_mirrored {primary : Production Primary}
    (h : Mirrored c c.likeness.Same primary primary) (start : Position) :
  Mirrored c c.likeness.Same (relationWith inner primary start) (relationWith inner primary start)
  := by
  apply hin.primary.bind
  intro first first' hfirst
  apply ((joinWith?_mirrored hin h).collect inner.bound).bind
  intro joins joins' hjoins
  apply (mirrored_spanFrom start).bind
  rintro region _ rfl
  apply mirrored_pure
  simpa using ⟨hfirst, hjoins⟩

theorem primaryUpTo_mirrored (n : Nat) :
  Mirrored c c.likeness.Same (primaryUpTo inner n) (primaryUpTo inner n)
  := by
  induction n with
  | zero =>
      apply mirrored_fail
      intro _ _ _
      rfl
  | succ n ih =>
      apply primaryWith_mirrored hin
      intro start
      apply relationWith_mirrored hin ih

theorem primary_mirrored :
  Mirrored c c.likeness.Same (primary inner) (primary inner)
  := primaryUpTo_mirrored hin inner.bound

theorem relation_mirrored :
  Mirrored c c.likeness.Same (relation inner) (relation inner)
  := by
  apply mirrored_here.bind
  rintro start _ rfl
  apply relationWith_mirrored hin (primary_mirrored hin)

/-! ### Selections -/

theorem selectItem_mirrored :
  Mirrored c c.likeness.Same (selectItem inner) (selectItem inner)
  := by
  apply mirrored_here.bind
  rintro start _ rfl
  apply hin.expression.bind
  intro value value' hvalue
  apply label?_mirrored.bind
  intro label label' hlabel
  apply (mirrored_spanFrom start).bind
  rintro region _ rfl
  apply mirrored_pure
  simpa using ⟨hvalue, hlabel⟩

/-- The expressions of a grouping set that is written as one expression. -/
def setOf (e : Expression) : List Expression :=
  match e.form with
  | .row items => items
  | .nested single => [single]
  | _ => [e]

omit hin in
theorem view_setOf (m : Likeness) (e : Expression) :
  m.view (setOf e) = setOf (m.view e)
  := by
  obtain ⟨form, span⟩ := e
  cases form <;> simp [setOf, Likeness.form_eq]

omit hin in
/-- Two parentheses with nothing between them may be taken if what is read otherwise fails where only
a parenthesis that opens is left. -/
theorem mirrored_parens_bind_ite {α : Type} {R : α → α → Prop} {p p' q q' : Production α}
    (hp : MirroredAt c [.leftParen, .rightParen] R p p') (hq : Mirrored c R q q')
    (hopen : FailsOpen q) :
  Mirrored c R (nextAre .leftParen .rightParen >>= fun a => if a then p else q)
    (nextAre .leftParen .rightParen >>= fun a => if a then p' else q')
  := by
  rw [nextAre_bind_ite, nextAre_bind_ite]
  apply mirrored_look .first rfl (by simp)
  intro t u h
  simp only [h.kind_iff (k := .leftParen) rfl]
  apply mirrored_ite_of
  · intro ht
    rw [ht]
    apply mirrored_look .second rfl (by simp)
    intro v w hsecond
    cases hsecond with
    | matched hsecond =>
        rw [hsecond.kind_eq]
        apply mirrored_ite_of
        · intro hv
          rw [hv]
          apply hp
        · intro _
          apply hq.seen
    | ended closes =>
        intro s r hpairs hseen
        obtain ⟨x, xs, htokens, hkind, hbehind⟩ := hseen.exists_cons (by simp)
        obtain ⟨_, _, _, _, hpairs'⟩ := hpairs.next htokens
        have hnil : xs = [] := hpairs'.tokens_of_seen hbehind
        rw [hnil] at htokens
        obtain ⟨e, s', herror⟩ := hopen s (.inr ⟨x, htokens, hkind⟩)
        rw [show (Token.eof w.span.start).kind = .eof from rfl, if_neg (by simp), herror]
        exact .failed (Mirror.apart_of_mem_head? closes)
  · intro _
    apply hq.seen

theorem groupingSet_mirrored :
  Mirrored c c.likeness.Same (groupingSet inner) (groupingSet inner)
  := by
  have heq : groupingSet inner = do
      if ← nextAre .leftParen .rightParen then
        let _ ← advance
        let _ ← advance
        return []
      else return setOf (← inner.expression) := by
    unfold groupingSet
    congr 1
    funext a
    split
    · rfl
    · congr 1
      funext e
      obtain ⟨form, span⟩ := e
      cases form <;> rfl
  rw [heq]
  apply mirrored_parens_bind_ite
  · apply mirrored_advance_bind (by simp)
    intro _ _ _ _
    apply mirrored_advance_bind (by simp)
    intro _ _ _ _
    apply mirrored_same
  · apply hin.expression.bind
    intro e e' he
    apply mirrored_pure
    rw [Likeness.Same, view_setOf, view_setOf, show c.likeness.view e = c.likeness.view e' from he]
  · apply FailsOpen.bind
    exact hin.fails

theorem groupingKind_mirrored :
  Mirrored c c.likeness.Same (groupingKind inner) (groupingKind inner)
  := by
  apply (mirrored_accept rfl).bind_ite
  · apply (mirrored_accept rfl).bind_ite
    · apply mirrored_same
    · apply (mirrored_accept rfl).bind_ite
      · apply mirrored_same
      · apply mirrored_expected
  · apply (mirrored_accept rfl).bind_ite
    · apply (mirrored_expect (by simp)).bind
      intro _ _ _
      apply (mirrored_expect (by simp)).bind
      intro _ _ _
      apply ((groupingSet_mirrored hin).commaList inner.bound).bind
      intro sets sets' hsets
      apply (mirrored_expect (by simp)).bind
      intro _ _ _
      apply mirrored_pure
      simpa [Likeness.view_grouping] using hsets
    · apply mirrored_same

theorem groupBy?_mirrored :
  Mirrored c c.likeness.Same (groupBy? inner) (groupBy? inner)
  := by
  apply mirrored_here.bind
  rintro start _ rfl
  apply Mirrored.afterToken? _ rfl
  apply (mirrored_expect (by simp)).bind
  intro _ _ _
  apply (hin.expression.commaList inner.bound).bind
  intro keys keys' hkeys
  apply (groupingKind_mirrored hin).bind
  intro grouping grouping' hgrouping
  apply (mirrored_spanFrom start).bind
  rintro region _ rfl
  apply mirrored_pure
  simpa using ⟨hkeys, hgrouping⟩

theorem relations_mirrored :
  Mirrored c c.likeness.Same (relations inner) (relations inner)
  := by
  apply (mirrored_accept rfl).bind_ite
  · apply (relation_mirrored hin).commaList
  · apply mirrored_same

theorem select_mirrored :
  Mirrored c c.likeness.Same (select inner) (select inner)
  := by
  apply mirrored_here.bind
  rintro start _ rfl
  apply (mirrored_expect (by simp)).bind
  intro _ _ _
  apply quantifier?_mirrored.bind
  rintro quantifier _ rfl
  apply ((selectItem_mirrored hin).commaList inner.bound).bind
  intro items items' hitems
  apply (relations_mirrored hin).bind
  intro relations relations' hrelations
  apply (hin.expression.afterToken? rfl).bind
  intro condition condition' hcondition
  apply (groupBy?_mirrored hin).bind
  intro grouping grouping' hgrouping
  apply (hin.expression.afterToken? rfl).bind
  intro having having' hhaving
  apply (mirrored_spanFrom start).bind
  rintro region _ rfl
  apply mirrored_pure
  simpa using ⟨hitems, hrelations, hcondition, hgrouping, hhaving⟩

/-! ### Set operators -/

theorem simpleBody_mirrored :
  Mirrored c c.likeness.Same (simpleBody inner) (simpleBody inner)
  := by
  apply mirrored_peek_match
  · intro t u h
    simp only [h.kind_eq, h.span_eq]
    split
    · apply (select_mirrored hin).bind
      intro s s' hs
      apply mirrored_pure
      simpa using hs
    · next hk =>
        rw [hk]
        apply mirrored_advance_bind (by simp)
        intro _ _ _ _
        apply (qualifiedName_mirrored inner.bound).bind
        intro name name' hname
        apply (mirrored_spanFrom t.span.start).bind
        rintro region _ rfl
        apply mirrored_pure
        simpa using hname
    · next hk =>
        rw [hk]
        apply mirrored_advance_bind (by simp)
        intro _ _ _ _
        apply (hin.expression.commaList inner.bound).bind
        intro rows rows' hrows
        apply (mirrored_spanFrom t.span.start).bind
        rintro region _ rfl
        apply mirrored_pure
        simpa using hrows
    · next hk =>
        rw [hk]
        apply mirrored_advance_bind (by simp)
        intro _ _ _ _
        apply (queryToParen_mirrored hin).bind
        rintro ⟨named, body, order, limit, span⟩ ⟨named', body', order', limit', span'⟩ hq
        apply (mirrored_spanFrom t.span.start).bind
        rintro region _ rfl
        apply mirrored_pure
        simp_all
    · apply mirrored_expected
  · intro t u ht hu
    simp only [ht]
    apply mirrored_expected_end hu

omit hin in
theorem combinations_mirrored {op? : Kind → Option SetOp} (hparen : op? .rightParen = none)
    (hto : op? (.keyword .TO) = none) (heof : op? .eof = none) {operand : Production Body}
    (h : Mirrored c c.likeness.Same operand operand) (start : Position) (n : Nat)
    {left left' : Body} (hleft : c.likeness.Same left left') :
  Mirrored c c.likeness.Same (combinations op? start operand n left)
    (combinations op? start operand n left')
  := by
  induction n generalizing left left' with
  | zero =>
      apply mirrored_fail
      intro _ _ _
      rfl
  | succ n ih =>
      apply mirrored_peek_bind
      intro t u hmeets
      rw [hmeets.congr op? (hparen.trans heof.symm) (hto.trans heof.symm)]
      cases hop : op? t.kind with
      | none => apply mirrored_pure hleft
      | some op =>
          have hne : t.kind ≠ .eof := by
            intro hk
            rw [hk, heof] at hop
            contradiction
          apply mirrored_advance_bind hne
          intro _ _ _ _
          apply quantifier?_mirrored.bind
          rintro quantifier _ rfl
          apply h.bind
          intro right right' hright
          apply (mirrored_spanFrom start).bind
          rintro region _ rfl
          apply ih
          simpa using ⟨hleft, hright⟩

omit hin in
theorem combined_mirrored (n : Nat) {op? : Kind → Option SetOp} (hparen : op? .rightParen = none)
    (hto : op? (.keyword .TO) = none) (heof : op? .eof = none) {operand : Production Body}
    (h : Mirrored c c.likeness.Same operand operand) :
  Mirrored c c.likeness.Same (combined n op? operand) (combined n op? operand)
  := by
  apply mirrored_here.bind
  rintro start _ rfl
  apply h.bind
  intro left left' hleft
  apply combinations_mirrored hparen hto heof h start n hleft

theorem body_mirrored :
  Mirrored c c.likeness.Same (body inner) (body inner)
  := by
  apply combined_mirrored _ rfl rfl rfl
  apply combined_mirrored _ rfl rfl rfl
  apply simpleBody_mirrored hin

/-! ### Whole queries -/

omit hin in
theorem ascending?_mirrored :
  Mirrored c Eq ascending? ascending?
  := by
  apply (mirrored_accept rfl).bind_ite
  · apply mirrored_pure rfl
  · apply (mirrored_accept rfl).bind_ite
    · apply mirrored_pure rfl
    · apply mirrored_pure rfl

theorem sortItem_mirrored :
  Mirrored c c.likeness.Same (sortItem inner) (sortItem inner)
  := by
  have hnulls : Mirrored c Eq (afterToken? (.keyword .NULLS) do
      if ← accept (.keyword .FIRST) then return true
      else if ← accept (.keyword .LAST) then return false
      else expected "'FIRST' or 'LAST'") (afterToken? (.keyword .NULLS) do
      if ← accept (.keyword .FIRST) then return true
      else if ← accept (.keyword .LAST) then return false
      else expected "'FIRST' or 'LAST'") := by
    apply (mirrored_accept rfl).bind_ite
    · apply Mirrored.map (R := Eq)
      · apply (mirrored_accept rfl).bind_ite
        · apply mirrored_pure rfl
        · apply (mirrored_accept rfl).bind_ite
          · apply mirrored_pure rfl
          · apply mirrored_expected
      · rintro _ _ rfl
        rfl
    · apply mirrored_pure rfl
  apply mirrored_here.bind
  rintro start _ rfl
  apply hin.expression.bind
  intro key key' hkey
  apply ascending?_mirrored.bind
  rintro ascending _ rfl
  apply hnulls.bind
  rintro nullsFirst _ rfl
  apply (mirrored_spanFrom start).bind
  rintro region _ rfl
  apply mirrored_pure
  simpa using hkey

theorem namedQuery_mirrored :
  Mirrored c c.likeness.Same (namedQuery inner) (namedQuery inner)
  := by
  apply mirrored_here.bind
  rintro start _ rfl
  apply ident_mirrored.bind
  intro name name' hname
  apply (columns_mirrored inner.bound).bind
  intro columns columns' hcolumns
  apply (mirrored_accept rfl).bind
  intro _ _ _
  apply (mirrored_expect (by simp)).bind
  intro _ _ _
  apply (queryToParen_mirrored hin).bind
  intro q q' hq
  apply (mirrored_spanFrom start).bind
  rintro region _ rfl
  apply mirrored_pure
  simpa using ⟨hname, hcolumns, hq⟩

theorem namedQueries_mirrored :
  Mirrored c c.likeness.Same (namedQueries inner) (namedQueries inner)
  := by
  apply (mirrored_accept rfl).bind_ite
  · apply (namedQuery_mirrored hin).commaList
  · apply mirrored_same

theorem order_mirrored :
  Mirrored c c.likeness.Same (order inner) (order inner)
  := by
  apply (mirrored_accept rfl).bind_ite
  · apply (mirrored_expect (by simp)).bind
    intro _ _ _
    apply (sortItem_mirrored hin).commaList
  · apply mirrored_same

theorem query_mirrored :
  Mirrored c c.likeness.Same (query inner) (query inner)
  := by
  apply mirrored_here.bind
  rintro start _ rfl
  apply (namedQueries_mirrored hin).bind
  intro named named' hnamed
  apply (body_mirrored hin).bind
  intro body body' hbody
  apply (order_mirrored hin).bind
  intro order order' horder
  apply (hin.expression.afterToken? rfl).bind
  intro limit limit' hlimit
  apply (mirrored_spanFrom start).bind
  rintro region _ rfl
  apply mirrored_pure
  simpa using ⟨hnamed, hbody, horder, hlimit⟩

/-! ### Levels of nesting -/

omit hin in
/-- However deep the productions may be nested, they give the same on tapes that mirror each
other. -/
theorem Inner.nested_mirrored (bound levels : Nat) :
  (Inner.nested bound levels).Mirrored c
  := by
  induction levels with
  | zero =>
      have hfail : ∀ {α : Type} {R : α → α → Prop},
          Production.Mirrored c R (.fail fun _ => .tooDeep) (.fail fun _ => .tooDeep) := by
        intro α R
        apply mirrored_fail
        intro _ _ _
        rfl
      exact ⟨hfail, hfail, hfail, hfail, hfail, hfail, fun s _ => exists_eval_fail _ s⟩
  | succ levels ih =>
      exact ⟨expression_mirrored ih, negation_mirrored ih, signed_mirrored ih, query_mirrored ih,
        primary_mirrored ih, dataType_mirrored ih, expression_failsOpen ih⟩

end SqlFront.Grammar
