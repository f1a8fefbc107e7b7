import SqlFront.Grammar.Expression
import SqlFront.Proofs.Grammar.ExpressionFollows
import SqlFront.Proofs.Grammar.Mirrors

/-!
# Expressions side by side

The productions of expressions give the same on tapes that mirror each other if those of the
expressions, queries and types nested in them do.
-/

namespace SqlFront.Grammar

open Production

/-! ### Parentheses that open -/

section

variable {α β : Type} {p : Production α} {go : Token → Production α}

/-- The production fails where nothing or only a parenthesis that opens is left. -/
def FailsOpen (p : Production α) : Prop :=
  ∀ s : Tape, IsOpen s → ∃ e s', p.eval s = (.error e, s')

theorem FailsOpen.bind (h : FailsOpen p) (g : α → Production β) :
  FailsOpen (p >>= g)
  := by
  intro s hs
  obtain ⟨e, s', herror⟩ := h s hs
  exact ⟨e, s', by rw [eval_bind, herror]⟩

theorem failsOpen_expected (wanted : String) :
  FailsOpen (expected (α := α) wanted)
  := fun s _ => exists_eval_fail _ s

theorem failsOpen_look (h : ∀ t, t.kind = .leftParen ∨ t.kind = .eof → FailsOpen (go t)) :
  FailsOpen (look .first go)
  := by
  intro s hs
  simp only [eval, Lookahead.distance]
  cases hpeek : s.peek 0 with
  | error e => exact ⟨e, s, rfl⟩
  | ok t =>
      apply h t _ s hs
      rcases hs with hnil | ⟨u, hu, hkind⟩
      · right
        obtain ⟨-, p, -, rfl⟩ := (Tape.peek_eq_ok_iff.mp hpeek).resolve_left (by simp [hnil])
        rfl
      · left
        simp only [Tape.peek, hu] at hpeek
        rw [← Except.ok.inj hpeek, hkind]

theorem failsOpen_peek_bind {g : Token → Production β}
    (h : ∀ t, t.kind = .leftParen ∨ t.kind = .eof → FailsOpen (g t)) :
  FailsOpen (peek >>= g)
  := failsOpen_look h

theorem failsOpen_here_bind {g : Position → Production β} (h : ∀ start, FailsOpen (g start)) :
  FailsOpen (here >>= g)
  := failsOpen_look fun t _ => h t.span.start

theorem failsOpen_accept_bind_ite {k : Kind} (hparen : k ≠ .leftParen) (heof : k ≠ .eof)
    {q : Production α} (h : FailsOpen q) :
  FailsOpen (accept k >>= fun a => if a then p else q)
  := by
  rw [accept_bind]
  apply failsOpen_look
  intro t ht
  rw [if_neg]
  · apply h
  · rintro rfl
    rcases ht with ht | ht <;> contradiction

theorem failsOpen_expect {k : Kind} (hparen : k ≠ .leftParen) (heof : k ≠ .eof) :
  FailsOpen (expect k)
  := by
  apply failsOpen_look
  intro t ht
  rw [if_neg]
  · apply failsOpen_expected
  · rintro rfl
    rcases ht with ht | ht <;> contradiction

theorem failsOpen_second_bind {g : Token → Production β} (h : ∀ t, t.kind = .eof → FailsOpen (g t)) :
  FailsOpen (peekAt .second >>= g)
  := by
  intro s hs
  have hpeek : s.peek 1 = s.stop.map .eof := by
    rcases hs with hs | ⟨u, hs, -⟩ <;> simp [Tape.peek, hs]
  simp only [eval_bind, peekAt, eval, Lookahead.distance, hpeek]
  cases s.stop with
  | error e => exact ⟨e, s, rfl⟩
  | ok p => apply h _ rfl s hs

theorem failsOpen_advance_bind {g : Token → Production β} (h : ∀ t, FailsOpen (g t)) :
  FailsOpen (advance >>= g)
  := by
  intro s hs
  simp only [eval_bind, advance, eval, Tape.next]
  rcases hs with hs | ⟨u, hs, -⟩
  · rw [hs]
    cases s.stop with
    | error e => exact ⟨e, s, rfl⟩
    | ok p => apply h _ _ (.inl rfl)
  · rw [hs]
    apply h _ _ (.inl rfl)

end

variable {c : Mirror} {k : Kind} {inner : Inner} (hin : inner.Mirrored c)

include hin

theorem expressionsToParen_failsOpen :
  FailsOpen (expressionsToParen inner)
  := by
  apply FailsOpen.bind
  apply FailsOpen.bind
  exact hin.fails

theorem parenForm_failsOpen :
  FailsOpen (parenForm inner)
  := by
  apply failsOpen_second_bind
  intro t ht
  rw [if_neg (by simp [ht, beginsQuery])]
  apply failsOpen_advance_bind
  intro u
  apply FailsOpen.bind
  exact hin.fails

theorem primaryExpression_failsOpen :
  FailsOpen (primaryExpression inner)
  := by
  apply failsOpen_peek_bind
  intro t ht
  apply FailsOpen.bind
  rcases ht with ht | ht
  · rw [primaryForm, ht]
    apply parenForm_failsOpen hin
  · rw [primaryForm, ht]
    apply failsOpen_expected

theorem signed_failsOpen :
  FailsOpen (signed inner)
  := by
  apply failsOpen_peek_bind
  intro t ht
  have hop : UnaryOp.ofKind? t.kind = none := by
    rcases ht with ht | ht <;> rw [ht] <;> rfl
  rw [hop]
  apply primaryExpression_failsOpen hin

theorem comparison_failsOpen :
  FailsOpen (comparison inner)
  := by
  have hfold : ∀ (levels : List Nat) (operand : Production Expression), FailsOpen operand →
      FailsOpen (levels.foldl (fun operand level => atLevel inner.bound level operand) operand) := by
    intro levels
    induction levels with
    | nil => exact fun _ h => h
    | cons level levels ih =>
        intro operand h
        apply ih
        apply h.bind
  apply hfold
  apply signed_failsOpen hin

/-- An expression is more than a parenthesis that opens. -/
theorem expression_failsOpen :
  FailsOpen (expression inner)
  := by
  apply FailsOpen.bind
  apply FailsOpen.bind
  apply failsOpen_here_bind
  intro start
  apply failsOpen_accept_bind_ite (by simp) (by simp)
  rw [nextAre_bind_ite]
  apply failsOpen_look
  intro t ht
  rw [if_neg (by rcases ht with ht | ht <;> simp [ht])]
  apply failsOpen_here_bind
  intro begins
  apply FailsOpen.bind
  apply comparison_failsOpen hin

/-! ### Primary expressions -/

theorem expressionsToParen_mirrored :
  Mirrored c c.likeness.Same (expressionsToParen inner) (expressionsToParen inner)
  := by
  apply (hin.expression.commaList inner.bound).bind
  intro items items' hitems
  apply (mirrored_expect (by simp)).bind
  intro _ _ _
  apply mirrored_pure hitems

theorem queryToParen_mirrored :
  Mirrored c c.likeness.Same (queryToParen inner) (queryToParen inner)
  := by
  apply hin.query.bind
  intro q q' hq
  apply (mirrored_expect (by simp)).bind
  intro _ _ _
  apply mirrored_pure hq

theorem nameForm_mirrored (p : Position) :
  Mirrored c (c.likeness.SameForm p) (nameForm inner) (nameForm inner)
  := by
  have harguments : ∀ (name name' : QualifiedName) (distinct : Bool), c.likeness.Same name name' →
      Mirrored c (c.likeness.SameForm p) (do
      if ← accept .rightParen then return .call name distinct []
      else return .call name distinct (← expressionsToParen inner) : Production Form) (do
      if ← accept .rightParen then return .call name' distinct []
      else return .call name' distinct (← expressionsToParen inner) : Production Form) := by
    intro name name' distinct hname
    apply mirrored_accept_bind_ite (by simp)
    · apply mirrored_pure
      simpa [Likeness.form_eq] using hname
    · apply (expressionsToParen_mirrored hin).bind
      intro items items' hitems
      apply mirrored_pure
      simpa [Likeness.form_eq] using ⟨hname, hitems⟩
    · intro s hs
      exact (expressionsToParen_failsOpen hin).bind _ s (.inl hs)
  apply (qualifiedName_mirrored inner.bound).bind
  intro name name' hname
  apply mirrored_nextAre_bind_ite rfl rfl
  · apply mirrored_advance_bind (by simp)
    intro _ _ _ _
    apply mirrored_advance_bind (by simp)
    intro _ _ _ _
    apply mirrored_pure
    simpa [Likeness.form_eq] using hname
  · apply (mirrored_accept rfl).bind_ite
    · apply (mirrored_accept rfl).bind
      rintro distinct _ rfl
      apply mirrored_ite
      · apply (mirrored_accept rfl).bind
        intro _ _ _
        apply harguments _ _ _ hname
      · apply harguments _ _ _ hname
    · apply mirrored_pure
      simpa [Likeness.form_eq] using hname

theorem parenForm_mirrored (p : Position) :
  MirroredAt c [.leftParen] (c.likeness.SameForm p) (parenForm inner) (parenForm inner)
  := by
  apply mirrored_second_bind (by simp)
  intro t u h
  rw [h.congr beginsQuery rfl rfl]
  apply mirrored_ite
  · apply mirrored_advance_bind (by simp)
    intro _ _ _ _
    apply ((queryToParen_mirrored hin).seen _).bind_seen
    intro q q' hq
    apply mirrored_pure
    simpa [Likeness.form_eq] using hq
  · apply mirrored_advance_bind (by simp)
    intro _ _ _ _
    apply hin.expression.bind
    intro first first' hfirst
    apply mirrored_accept_bind_ite (by simp)
    · apply mirrored_pure
      simpa [Likeness.form_eq] using hfirst
    · apply (mirrored_expect (by simp)).bind
      intro _ _ _
      apply (expressionsToParen_mirrored hin).bind
      intro items items' hitems
      apply mirrored_pure
      simpa [Likeness.form_eq] using ⟨hfirst, hitems⟩
    · intro s hs
      exact (failsOpen_expect (by simp) (by simp)).bind _ s (.inl hs)

theorem branch?_mirrored :
  Mirrored c c.likeness.Same (branch? inner) (branch? inner)
  := by
  apply Mirrored.afterToken? _ rfl
  apply hin.expression.bind
  intro condition condition' hcondition
  apply (mirrored_expect (by simp)).bind
  intro _ _ _
  apply hin.expression.bind
  intro result result' hresult
  apply mirrored_pure
  simpa using ⟨hcondition, hresult⟩

theorem caseOperand?_mirrored :
  Mirrored c c.likeness.Same (caseOperand? inner) (caseOperand? inner)
  := by
  apply (mirrored_nextIs rfl).bind_ite
  · apply mirrored_same
  · apply hin.expression.some

theorem caseForm_mirrored (p : Position) :
  Mirrored c (c.likeness.SameForm p) (caseForm inner) (caseForm inner)
  := by
  apply (mirrored_expect (by simp)).bind
  intro _ _ _
  apply (caseOperand?_mirrored hin).bind
  intro operand operand' hoperand
  apply ((branch?_mirrored hin).collect inner.bound).bind
  intro branches branches' hbranches
  have hempty : branches'.isEmpty = branches.isEmpty := by
    cases branches <;> cases branches' <;> simp at hbranches ⊢
  rw [hempty]
  apply mirrored_ite
  · apply mirrored_expected
  · apply (hin.expression.afterToken? rfl).bind
    intro otherwise otherwise' hotherwise
    apply (mirrored_expect (by simp)).bind
    intro _ _ _
    apply mirrored_pure
    simpa [Likeness.form_eq] using ⟨hoperand, hbranches, hotherwise⟩

theorem castForm_mirrored {type : Production DataType} (htype : Mirrored c Eq type type)
    (p : Position) :
  Mirrored c (c.likeness.SameForm p) (castForm inner type) (castForm inner type)
  := by
  apply (mirrored_expect (by simp)).bind
  intro _ _ _
  apply (mirrored_expect (by simp)).bind
  intro _ _ _
  apply hin.expression.bind
  intro subject subject' hsubject
  apply (mirrored_expect (by simp)).bind
  intro _ _ _
  apply htype.bind
  rintro type _ rfl
  apply (mirrored_expect (by simp)).bind
  intro _ _ _
  apply mirrored_pure
  simpa [Likeness.form_eq] using hsubject

omit hin in
/-- Parameters of types have no letters. -/
theorem typeParameter_mirrored :
  Mirrored c c.likeness.Same typeParameter typeParameter
  := by
  apply (mirrored_expect (by simp)).bind
  rintro t u ⟨hmatches, hkind⟩
  rw [hmatches.text_eq (.inr hkind)]
  apply mirrored_ite
  · apply mirrored_same
  · apply mirrored_failLast

omit hin in
theorem opensAngle_mirrored (name word : String) :
  Mirrored c Eq (opensAngle name word) (opensAngle name word)
  := by
  apply mirrored_ite
  · apply mirrored_accept rfl
  · apply mirrored_pure rfl

theorem dataType_mirrored :
  Mirrored c Eq (dataType inner) (dataType inner)
  := by
  apply ident_mirrored.bind
  intro i i' hi
  simp only [toUpper_eq_of_same hi]
  apply (opensAngle_mirrored _ _).bind
  rintro isArray _ rfl
  apply (opensAngle_mirrored _ _).bind
  rintro isMap _ rfl
  apply mirrored_ite
  · apply hin.dataType.bind
    rintro element _ rfl
    apply (mirrored_expect (by simp)).bind
    intro _ _ _
    apply mirrored_pure rfl
  · apply mirrored_ite
    · apply hin.dataType.bind
      rintro key _ rfl
      apply (mirrored_expect (by simp)).bind
      intro _ _ _
      apply hin.dataType.bind
      rintro value _ rfl
      apply (mirrored_expect (by simp)).bind
      intro _ _ _
      apply mirrored_pure rfl
    · apply (mirrored_accept rfl).bind_ite
      · apply (typeParameter_mirrored.commaList inner.bound).bind
        intro parameters parameters' hparameters
        apply (mirrored_expect (by simp)).bind
        intro _ _ _
        apply mirrored_pure
        simpa using hparameters
      · apply mirrored_pure rfl

theorem primaryForm_mirrored {t u : Token} (h : c.likeness.Matches t u) :
  MirroredFrom c t (c.likeness.SameForm t.span.start) (primaryForm inner t) (primaryForm inner u)
  := by
  have hword : ∀ form : Form, t.kind ≠ .eof →
      MirroredFrom c t (c.likeness.SameForm t.span.start) (do
      let _ ← advance
      return form : Production Form) (do
      let _ ← advance
      return form : Production Form) := by
    intro form hne
    apply MirroredAt.from
    apply mirrored_advance_bind hne
    intro _ _ _ _
    apply mirrored_pure
    rfl
  have hliteral : MirroredFrom c t (c.likeness.SameForm t.span.start)
      (Form.literal <$> literal inner.bound) (Form.literal <$> literal inner.bound) := by
    apply (literal_mirrored inner.bound t).map
    intro value value' hvalue
    simpa [Likeness.form_eq] using hvalue
  have hname := ((nameForm_mirrored hin t.span.start).seen [t.kind]).from
  unfold primaryForm
  rw [h.kind_eq]
  split
  · next hk => exact hword _ (by simp [hk])
  · next hk => exact hword _ (by simp [hk])
  · exact ((caseForm_mirrored hin _).seen _).from
  · exact ((castForm_mirrored hin (dataType_mirrored hin) _).seen _).from
  · exact hliteral
  · exact hliteral
  · exact hliteral
  · exact hliteral
  · exact hliteral
  · exact hliteral
  · next hk => exact hword _ (by simp [hk])
  · next hk =>
      apply MirroredAt.from
      rw [hk]
      apply parenForm_mirrored hin
  · next hk =>
      apply MirroredFrom.second_bind (by simp [hk])
      intro v w hsecond
      simp only [hsecond.kind_iff (k := .string) rfl]
      split
      · exact hliteral
      · exact hname
  · split
    · exact hname
    · exact (mirrored_expected _).from

theorem primaryExpression_mirrored :
  Mirrored c c.likeness.Same (primaryExpression inner) (primaryExpression inner)
  := by
  apply mirrored_peek_from
  intro t u h
  cases h with
  | matched h =>
      apply (primaryForm_mirrored hin h).bind
      intro form form' hform
      rw [h.span_eq]
      apply (mirrored_spanFrom_start t.span.start).bind
      rintro region _ ⟨rfl, hstart⟩
      apply mirrored_pure
      simpa [hstart] using hform
  | ended hu =>
      apply MirroredAt.from
      apply mirrored_failed hu
      intro s hs
      exact (failsOpen_expected _).bind _ s (.inl hs)

/-! ### Operators -/

theorem signed_mirrored :
  Mirrored c c.likeness.Same (signed inner) (signed inner)
  := by
  apply mirrored_peek_bind
  intro t u h
  rw [h.congr UnaryOp.ofKind? rfl rfl, h.start_eq]
  cases hop : UnaryOp.ofKind? t.kind with
  | none => apply (primaryExpression_mirrored hin).seen
  | some op =>
      have hne : t.kind ≠ .eof := by
        intro heof
        rw [heof] at hop
        contradiction
      apply mirrored_advance_bind hne
      intro _ _ _ _
      apply hin.signed.bind
      intro operand operand' hoperand
      apply (mirrored_spanFrom t.span.start).bind
      rintro region _ rfl
      apply mirrored_pure
      simpa [Likeness.form_eq] using hoperand

omit hin in
theorem span_eq_of_same {m : Likeness} {e e' : Expression} (h : m.Same e e') :
  e.span = e'.span
  := by
  obtain ⟨form, span⟩ := e
  obtain ⟨form', span'⟩ := e'
  rw [Likeness.Same, Likeness.view_expression, Likeness.view_expression] at h
  exact (Expression.mk.inj h).2

omit hin in
theorem same_binary {m : Likeness} (op : BinaryOp) {left left' right right' : Expression}
    (hleft : m.Same left left') (hright : m.Same right right') :
  m.Same (Expression.binary op left right) (Expression.binary op left' right')
  := by
  rw [Likeness.Same] at hleft hright
  simp only [Expression.binary, Likeness.Same, Likeness.view_expression, Likeness.form_eq, hleft,
    hright, span_eq_of_same hleft, span_eq_of_same hright]

omit hin in
theorem operations_mirrored {operand : Production Expression}
    (h : Mirrored c c.likeness.Same operand operand) (level n : Nat) {left left' : Expression}
    (hleft : c.likeness.Same left left') :
  Mirrored c c.likeness.Same (operations level operand n left) (operations level operand n left')
  := by
  induction n generalizing left left' with
  | zero =>
      apply mirrored_fail
      intro _ _ _
      rfl
  | succ n ih =>
      apply mirrored_peek_bind
      intro t u hmeets
      rw [hmeets.congr BinaryOp.ofKind? rfl rfl]
      cases hop : (BinaryOp.ofKind? t.kind).filter (·.level = level) with
      | none => apply mirrored_pure hleft
      | some op =>
          have hne : t.kind ≠ .eof := by
            intro heof
            rw [heof] at hop
            contradiction
          apply mirrored_advance_bind hne
          intro _ _ _ _
          apply h.bind
          intro right right' hright
          apply ih (same_binary op hleft hright)

omit hin in
theorem atLevel_mirrored {operand : Production Expression}
    (h : Mirrored c c.likeness.Same operand operand) (n level : Nat) :
  Mirrored c c.likeness.Same (atLevel n level operand) (atLevel n level operand)
  := by
  apply h.bind
  intro left left' hleft
  apply operations_mirrored h level n hleft

theorem comparison_mirrored :
  Mirrored c c.likeness.Same (comparison inner) (comparison inner)
  := by
  have hfold : ∀ (levels : List Nat) (operand : Production Expression),
      Mirrored c c.likeness.Same operand operand →
      Mirrored c c.likeness.Same
        (levels.foldl (fun operand level => atLevel inner.bound level operand) operand)
        (levels.foldl (fun operand level => atLevel inner.bound level operand) operand) := by
    intro levels
    induction levels with
    | nil => exact fun _ h => h
    | cons level levels ih =>
        intro operand h
        apply ih
        apply atLevel_mirrored h
  apply hfold
  apply signed_mirrored hin

theorem predicateForm?_mirrored {subject subject' : Expression}
    (hsubject : c.likeness.Same subject subject') (negated : Bool) (p : Position) :
  Mirrored c (Option.Rel (c.likeness.SameForm p)) (predicateForm? inner subject negated)
    (predicateForm? inner subject' negated)
  := by
  apply mirrored_peek_match
  · intro t u h
    rw [h.kind_eq]
    split
    · next hk =>
        rw [hk]
        apply mirrored_advance_bind (by simp)
        intro _ _ _ _
        apply (comparison_mirrored hin).bind
        intro low low' hlow
        apply (mirrored_expect (by simp)).bind
        intro _ _ _
        apply (comparison_mirrored hin).bind
        intro high high' hhigh
        refine mirrored_pure (.some ?_)
        simpa [Likeness.form_eq] using ⟨hsubject, hlow, hhigh⟩
    · next hk =>
        rw [hk]
        apply mirrored_advance_bind (by simp)
        intro _ _ _ _
        apply (mirrored_expect (by simp)).bind
        intro _ _ _
        apply mirrored_peek_bind
        intro v w hsecond
        rw [hsecond.congr beginsQuery rfl rfl]
        apply mirrored_ite
        · apply (queryToParen_mirrored hin).bind
          intro q q' hq
          refine mirrored_pure (.some ?_)
          simpa [Likeness.form_eq] using ⟨hsubject, hq⟩
        · apply (expressionsToParen_mirrored hin).bind
          intro items items' hitems
          refine mirrored_pure (.some ?_)
          simpa [Likeness.form_eq] using ⟨hsubject, hitems⟩
    · next hk =>
        rw [hk]
        apply mirrored_advance_bind (by simp)
        intro _ _ _ _
        apply (comparison_mirrored hin).bind
        intro pattern pattern' hpattern
        refine mirrored_pure (.some ?_)
        simpa [Likeness.form_eq] using ⟨hsubject, hpattern⟩
    · next hk =>
        rw [hk]
        apply mirrored_advance_bind (by simp)
        intro _ _ _ _
        apply (comparison_mirrored hin).bind
        intro pattern pattern' hpattern
        refine mirrored_pure (.some ?_)
        simpa [Likeness.form_eq] using ⟨hsubject, hpattern⟩
    · next hk =>
        rw [hk]
        apply mirrored_advance_bind (by simp)
        intro _ _ _ _
        apply (mirrored_accept rfl).bind
        rintro negated _ rfl
        apply (mirrored_expect (by simp)).bind
        intro _ _ _
        refine mirrored_pure (.some ?_)
        simpa [Likeness.form_eq] using hsubject
    · apply mirrored_pure .none
  · intro t u ht hu
    rw [ht]
    rcases Mirror.closes_of_mem_head? hu with hu | hu <;> rw [hu] <;> apply mirrored_pure .none

omit hin in
theorem negated_mirrored :
  Mirrored c Eq negated negated
  := by
  apply mirrored_nextIs_bind_ite rfl
  · apply mirrored_second_bind (by simp)
    intro t u h
    rw [h.congr isNegatable rfl rfl]
    apply mirrored_ite
    · apply mirrored_advance_bind (by simp)
      intro _ _ _ _
      apply mirrored_pure rfl
    · apply mirrored_pure rfl
  · apply mirrored_pure rfl

theorem predicate_mirrored :
  Mirrored c c.likeness.Same (predicate inner) (predicate inner)
  := by
  apply mirrored_here.bind
  rintro start _ rfl
  apply (comparison_mirrored hin).bind
  intro subject subject' hsubject
  apply negated_mirrored.bind
  rintro negated _ rfl
  apply (predicateForm?_mirrored hin hsubject negated start).bind
  intro o o' ho
  cases ho with
  | none => apply mirrored_pure hsubject
  | some hform =>
      apply (mirrored_spanFrom_start start).bind
      rintro region _ ⟨rfl, hstart⟩
      apply mirrored_pure
      simpa [hstart] using hform

theorem negation_mirrored :
  Mirrored c c.likeness.Same (negation inner) (negation inner)
  := by
  apply mirrored_here.bind
  rintro start _ rfl
  apply (mirrored_accept rfl).bind_ite
  · apply hin.negation.bind
    intro operand operand' hoperand
    apply (mirrored_spanFrom start).bind
    rintro region _ rfl
    apply mirrored_pure
    simpa [Likeness.form_eq] using hoperand
  · apply mirrored_nextAre_bind_ite rfl rfl
    · apply mirrored_advance_bind (by simp)
      intro _ _ _ _
      apply mirrored_advance_bind (by simp)
      intro _ _ _ _
      apply (queryToParen_mirrored hin).bind
      intro q q' hq
      apply (mirrored_spanFrom start).bind
      rintro region _ rfl
      apply mirrored_pure
      simpa [Likeness.form_eq] using hq
    · apply predicate_mirrored hin

theorem expression_mirrored :
  Mirrored c c.likeness.Same (expression inner) (expression inner)
  := by
  apply atLevel_mirrored
  apply atLevel_mirrored
  apply negation_mirrored hin

end SqlFront.Grammar
