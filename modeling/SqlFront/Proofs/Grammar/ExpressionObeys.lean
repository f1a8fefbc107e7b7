import SqlFront.Proofs.Grammar.Obeys

/-!
# The productions for expressions obey their rules

Each production for expressions obeys its rule, provided that the productions one level further in
obey theirs and read nothing from no tokens.
-/

namespace SqlFront.Grammar

open Production

/-! ### One level further in -/

/-- Nothing is read from no tokens. -/
structure Rules.Nonempty (G : Rules) : Prop where
  expression {e : Expression} {u : List Token} : G.expression e u → u ≠ []
  negation {e : Expression} {u : List Token} : G.negation e u → u ≠ []
  signed {e : Expression} {u : List Token} : G.signed e u → u ≠ []
  query {q : Query} {u : List Token} : G.query q u → u ≠ []
  primary {p : Primary} {u : List Token} : G.primary p u → u ≠ []
  dataType {d : DataType} {u : List Token} : G.dataType d u → u ≠ []

/-- The productions one level further in obey their rules. -/
structure Inner.Obeys (inner : Inner) (G : Rules) : Prop where
  expression : inner.expression.Obeys G.expression
  negation : inner.negation.Obeys G.negation
  signed : inner.signed.Obeys G.signed
  query : inner.query.Obeys G.query
  primary : inner.primary.Obeys G.primary
  dataType : inner.dataType.Obeys G.dataType

section

variable {α : Type} {R : α → List Token → Prop} {k : Kind} {a : α} {u : List Token}

theorem After.ne_nil (h : After k R a u) :
  u ≠ []
  := by
  cases h
  simp

theorem ChainRule.ne_nil {level : Nat} {operand : Expression → List Token → Prop} {e : Expression}
    (hoperand : ∀ e u, operand e u → u ≠ []) (h : ChainRule level operand e u) :
  u ≠ []
  := by
  cases h with
  | one only => apply hoperand _ _ only
  | more => simp

end

/-! ### Nothing is read from no tokens -/

section

variable {G : Rules} {e : Expression} {u : List Token}

theorem Rules.FormRule.ne_nil {form : Form} (h : G.FormRule form u) :
  u ≠ []
  := by
  cases h with
  | literal literal => apply literal.1
  | column isName => apply isName.ne_nil
  | subquery inside => apply inside.ne_nil
  | row inside => apply inside.ne_nil
  | nested inside => apply inside.ne_nil
  | _ => simp

theorem Rules.SignedRule.ne_nil (h : G.SignedRule e u) :
  u ≠ []
  := by
  cases h with
  | sign => simp
  | primary isForm => apply isForm.ne_nil

theorem Rules.ComparisonRule.ne_nil (h : G.ComparisonRule e u) :
  u ≠ []
  := by
  have hfold : ∀ (levels : List Nat) (operand : Expression → List Token → Prop),
      (∀ e u, operand e u → u ≠ []) →
      ∀ e u, levels.foldl (fun operand level => ChainRule level operand) operand e u → u ≠ [] := by
    intro levels
    induction levels with
    | nil =>
        intro operand hoperand
        apply hoperand
    | cons level levels ih =>
        intro operand hoperand
        apply ih
        intro e u h
        apply h.ne_nil hoperand
  apply hfold _ _ (fun _ _ => SignedRule.ne_nil) _ _ h

theorem Rules.PredicateFormRule.ne_nil {subject : Expression} {negated : Bool} {form : Form}
    (h : G.PredicateFormRule subject negated form u) :
  u ≠ []
  := by
  cases h <;> simp

theorem Rules.PredicateRule.ne_nil (h : G.PredicateRule e u) :
  u ≠ []
  := by
  cases h with
  | comparison isSubject => apply isSubject.ne_nil
  | positive isSubject isForm => simp [isSubject.ne_nil]
  | negative isSubject word isForm => simp

theorem Rules.NegationRule.ne_nil (h : G.NegationRule e u) :
  u ≠ []
  := by
  cases h with
  | not => simp
  | exist => simp
  | predicate isPredicate => apply isPredicate.ne_nil

theorem Rules.ExpressionRule.ne_nil (h : G.ExpressionRule e u) :
  u ≠ []
  := by
  apply ChainRule.ne_nil _ h
  intro e u h
  apply h.ne_nil fun _ _ => NegationRule.ne_nil

theorem Rules.DataTypeRule.ne_nil {type : DataType} (h : G.DataTypeRule type u) :
  u ≠ []
  := by
  cases h <;> simp

end

/-! ### Primary expressions -/

section

variable {inner : Inner} {G : Rules} (hin : inner.Obeys G)

include hin

theorem expressions_obeys (n : Nat) :
  (commaList n inner.expression).Obeys G.ExpressionsRule
  := commaList_obeys n hin.expression

theorem expressionsToParen_obeys :
  (expressionsToParen inner).Obeys (Closed G.ExpressionsRule)
  := closed_obeys (expressions_obeys hin inner.bound)

theorem queryToParen_obeys :
  (queryToParen inner).Obeys (Closed G.query)
  := closed_obeys hin.query

/-- A list of arguments, which may be empty, and the closing parenthesis. -/
theorem arguments_obeys {s s' : Tape} {name : QualifiedName} {distinct : Bool} {form : Form}
    (h : (do
      if ← accept .rightParen then return .call name distinct []
      else return .call name distinct (← expressionsToParen inner) : Production Form).Reads
        s form s') :
  ∃ arguments used, form = .call name distinct arguments ∧ s.Takes used s' ∧
    Closed (Listed G.ExpressionsRule) arguments used
  := by
  rcases (reads_accept_bind (by decide)).mp h with ⟨t, m, ht, htakes, h⟩ | ⟨t, -, -, h⟩
  · obtain ⟨rfl, rfl⟩ := reads_pure.mp h
    exact ⟨[], [] ++ [t], rfl, htakes, .intro .none ht⟩
  · obtain ⟨items, m, hitems, h⟩ := reads_bind.mp h
    obtain ⟨rfl, rfl⟩ := reads_pure.mp h
    obtain ⟨used, hused, hclosed⟩ := expressionsToParen_obeys hin hitems
    cases hclosed with
    | intro item closing => exact ⟨items, _, rfl, hused, .intro (.some item) closing⟩

theorem nameForm_obeys :
  (nameForm inner).Obeys G.FormRule
  := by
  intro s form s' hreads
  obtain ⟨name, m, hname, h⟩ := reads_bind.mp hreads
  clear hreads
  obtain ⟨u, hu, hrule⟩ := qualifiedName_obeys inner.bound hname
  obtain ⟨isStar, m', hstar, h⟩ := reads_bind.mp h
  obtain ⟨rfl, t, ht, hstar⟩ := reads_nextAre.mp hstar
  cases isStar with
  | true =>
      split at hstar
      · next hdot =>
          obtain ⟨star, hpeek, hkind⟩ := hstar
          have hkind : star.kind = .asterisk := by simpa using hkind
          simp only [if_true, reads_bind, reads_pure] at h
          obtain ⟨_, r, hadvance, _, r', hadvance', rfl, rfl⟩ := h
          obtain ⟨rfl, htakes⟩ := takes_of_advance ht (by simp [hdot]) hadvance
          rw [← Nat.add_zero 1, ← List.length_singleton, htakes.peek_add] at hpeek
          obtain ⟨rfl, htakes'⟩ := takes_of_advance hpeek (by simp [hkind]) hadvance'
          exact ⟨_, hu.trans (htakes.trans htakes'), .qualifiedStar hrule hdot hkind⟩
      · contradiction
  | false =>
      rcases (reads_accept_bind (by decide)).mp h with ⟨p, r, hp, htakes, h⟩ | ⟨p, -, -, h⟩
      · obtain ⟨distinct, r', hdistinct, h⟩ := reads_bind.mp h
        obtain ⟨w, hw, hplain⟩ := accept_obeys (by rfl) hdistinct
        cases distinct with
        | true =>
            obtain ⟨arguments, v, rfl, hv, hclosed⟩ := arguments_obeys hin h
            use u ++ p :: (w ++ v), hu.trans (htakes.trans (hw.trans hv))
            apply Rules.FormRule.call hrule hp hplain hclosed
        | false =>
            obtain ⟨_, r'', hall, h⟩ := reads_bind.mp h
            obtain ⟨w', hw', hplain'⟩ := accept_obeys (by rfl) hall
            obtain ⟨arguments, v, rfl, hv, hclosed⟩ := arguments_obeys hin h
            use u ++ p :: ((w ++ w') ++ v), hu.trans (htakes.trans ((hw.trans hw').trans hv))
            apply Rules.FormRule.call hrule hp (plain_append.mpr ⟨hplain, hplain'⟩) hclosed
      · obtain ⟨rfl, rfl⟩ := reads_pure.mp h
        exact ⟨u, hu, .column hrule⟩

theorem parenForm_obeys {s s' : Tape} {t : Token} {form : Form} (ht : s.peek 0 = .ok t)
    (hkind : t.kind = .leftParen) (hreads : (parenForm inner).Reads s form s') :
  ∃ used, s.Takes used s' ∧ G.FormRule form used
  := by
  simp only [parenForm, reads_bind, reads_peekAt] at hreads
  obtain ⟨u, m, ⟨-, rfl⟩, h⟩ := hreads
  split at h
  · simp only [reads_bind, reads_pure] at h
    obtain ⟨_, r, hadvance, q, r', hq, rfl, rfl⟩ := h
    obtain ⟨rfl, htakes⟩ := takes_of_advance ht (by simp [hkind]) hadvance
    obtain ⟨used, hused, hclosed⟩ := queryToParen_obeys hin hq
    exact ⟨_, htakes.trans hused, .subquery (.intro hkind hclosed)⟩
  · obtain ⟨_, r, hadvance, h⟩ := reads_bind.mp h
    obtain ⟨rfl, htakes⟩ := takes_of_advance ht (by simp [hkind]) hadvance
    obtain ⟨first, m₁, hfirst, h⟩ := reads_bind.mp h
    obtain ⟨v, hv, hexpression⟩ := hin.expression hfirst
    rcases (reads_accept_bind (by decide)).mp h with ⟨c, r', hc, htakes', h⟩ | ⟨c, -, -, h⟩
    · obtain ⟨rfl, rfl⟩ := reads_pure.mp h
      exact ⟨_, htakes.trans (hv.trans htakes'), .nested (.intro hkind (.intro hexpression hc))⟩
    · obtain ⟨comma, m₂, hcomma, h⟩ := reads_bind.mp h
      obtain ⟨hseparator, htakes₂⟩ := (reads_expect (by decide)).mp hcomma
      obtain ⟨items, m₃, hitems, h⟩ := reads_bind.mp h
      obtain ⟨rfl, rfl⟩ := reads_pure.mp h
      obtain ⟨w, hw, hclosed⟩ := expressionsToParen_obeys hin hitems
      cases hclosed with
      | @intro close x item closing =>
          refine ⟨_ :: (v ++ comma :: x ++ [close]), htakes.trans ?_, ?_⟩
          · simpa using hv.trans (htakes₂.trans hw)
          · apply Rules.FormRule.row
            exact .intro hkind (.intro (.more hexpression hseparator item) closing)

theorem branch?_obeys :
  (branch? inner).Obeys (Possible G.BranchRule)
  := by
  intro s o s' hreads
  rcases (reads_accept_bind (by decide)).mp hreads with ⟨t, m, ht, htakes, h⟩ | ⟨t, -, -, h⟩
  · rw [if_pos rfl] at h
    simp only [reads_map, reads_bind, reads_pure] at h
    obtain ⟨b, ⟨condition, m₁, hcondition, arrow, m₂, harrow, result, m₃, hresult, rfl, rfl⟩, rfl⟩ := h
    obtain ⟨u, hu, hu'⟩ := hin.expression hcondition
    obtain ⟨hleads, htakes'⟩ := (reads_expect (by decide)).mp harrow
    obtain ⟨v, hv, hv'⟩ := hin.expression hresult
    exact ⟨_, htakes.trans (hu.trans (htakes'.trans hv)), .some (.intro ht hu' hleads hv')⟩
  · obtain ⟨rfl, rfl⟩ := reads_pure.mp h
    exact ⟨[], .refl _, .none⟩

theorem caseOperand?_obeys :
  (caseOperand? inner).Obeys (Possible G.expression)
  := by
  intro s o s' hreads
  simp only [caseOperand?, reads_bind, reads_nextIs] at hreads
  obtain ⟨b, m, ⟨-, rfl⟩, h⟩ := hreads
  split at h
  · obtain ⟨rfl, rfl⟩ := reads_pure.mp h
    exact ⟨[], .refl _, .none⟩
  · obtain ⟨e, he, rfl⟩ := reads_map.mp h
    obtain ⟨u, hu, hexpression⟩ := hin.expression he
    exact ⟨u, hu, .some hexpression⟩

theorem caseForm_obeys :
  (caseForm inner).Obeys G.FormRule
  := by
  intro s form s' hreads
  simp only [caseForm, reads_bind] at hreads
  obtain ⟨t, m, ht, operand, m₁, hoperand, branches, m₂, hbranches, h⟩ := hreads
  obtain ⟨hopens, htakes⟩ := (reads_expect (by decide)).mp ht
  obtain ⟨u, hu, hpossible⟩ := caseOperand?_obeys hin hoperand
  obtain ⟨v, hv, hrepeated⟩ := collect_obeys inner.bound (branch?_obeys hin) hbranches
  split at h
  · simp at h
  · simp only [reads_bind, reads_pure] at h
    obtain ⟨otherwise, m₃, hotherwise, closing, m₄, hclosing, rfl, rfl⟩ := h
    obtain ⟨w, hw, hafter⟩ := afterToken?_obeys (by decide) hin.expression hotherwise
    obtain ⟨hcloses, htakes'⟩ := (reads_expect (by decide)).mp hclosing
    use t :: (u ++ v ++ w ++ [closing]), htakes.trans (((hu.trans hv).trans hw).trans htakes')
    apply Rules.FormRule.case hopens hpossible hrepeated hafter hcloses

theorem castForm_obeys {type : Production DataType} (htype : type.Obeys G.DataTypeRule) :
  (castForm inner type).Obeys G.FormRule
  := by
  intro s form s' h
  simp only [castForm, reads_bind, reads_pure] at h
  obtain ⟨t, m₁, ht, opening, m₂, hopening, subject, m₃, hsubject, marker, m₄, hmarker,
    d, m₅, hd, closing, m₆, hclosing, rfl, rfl⟩ := h
  obtain ⟨hcast, htakes₁⟩ := (reads_expect (by decide)).mp ht
  obtain ⟨hopens, htakes₂⟩ := (reads_expect (by decide)).mp hopening
  obtain ⟨u, hu, hexpression⟩ := hin.expression hsubject
  obtain ⟨hmarks, htakes₃⟩ := (reads_expect (by decide)).mp hmarker
  obtain ⟨v, hv, hrule⟩ := htype hd
  obtain ⟨hcloses, htakes₄⟩ := (reads_expect (by decide)).mp hclosing
  refine ⟨_, htakes₁.trans (htakes₂.trans (hu.trans (htakes₃.trans (hv.trans htakes₄)))), ?_⟩
  apply Rules.FormRule.cast hcast hopens hexpression hmarks hrule hcloses

omit hin in
theorem typeParameter_obeys :
  typeParameter.Obeys ParameterRule
  := by
  intro s n s' hreads
  obtain ⟨t, m, ht, h⟩ := reads_bind.mp hreads
  obtain ⟨hnumber, htakes⟩ := (reads_expect (by decide)).mp ht
  dsimp only at h
  split at h
  · obtain ⟨rfl, rfl⟩ := reads_pure.mp h
    exact ⟨[t], htakes, .intro hnumber⟩
  · simp at h

omit hin in
/-- The bracket that opens the parameters of a type, which follows certain names only. -/
theorem reads_opensAngle {s s' : Tape} {name word : String} {b : Bool}
    (h : (opensAngle name word).Reads s b s') :
  (name = word ∧ b = true ∧ ∃ t : Token, t.kind = .lt ∧ s.Takes [t] s') ∨ (b = false ∧ s' = s)
  := by
  unfold opensAngle at h
  split at h
  · next hname =>
      rcases (reads_accept (by decide)).mp h with ⟨rfl, ht⟩ | ⟨rfl, rfl, -⟩
      · exact .inl ⟨hname, rfl, ht⟩
      · exact .inr ⟨rfl, rfl⟩
  · exact .inr (reads_pure.mp h)

theorem dataType_obeys :
  (dataType inner).Obeys G.DataTypeRule
  := by
  intro s d s' hreads
  simp only [dataType, reads_bind] at hreads
  obtain ⟨i, m, hi, isArray, m₁, harray, isMap, m₂, hmap, h⟩ := hreads
  obtain ⟨t, hname, htakes, rfl⟩ := reads_ident.mp hi
  rcases reads_opensAngle harray with ⟨hword, rfl, opening, hopens, htakes₁⟩ | ⟨rfl, rfl⟩
  · rcases reads_opensAngle hmap with ⟨hword', -⟩ | ⟨-, rfl⟩
    · simp [hword'] at hword
    · simp only [if_true, reads_bind, reads_pure] at h
      obtain ⟨element, m₃, helement, closing, m₄, hclosing, rfl, rfl⟩ := h
      obtain ⟨u, hu, hrule⟩ := hin.dataType helement
      obtain ⟨hcloses, htakes₂⟩ := (reads_expect (by decide)).mp hclosing
      refine ⟨_, htakes.trans (htakes₁.trans (hu.trans htakes₂)), ?_⟩
      apply Rules.DataTypeRule.array hname hopens hrule hcloses
  · rcases reads_opensAngle hmap with ⟨-, rfl, opening, hopens, htakes₁⟩ | ⟨rfl, rfl⟩
    · simp only [Bool.false_eq_true, if_false, if_true, reads_bind, reads_pure] at h
      obtain ⟨key, m₃, hkey, comma, m₄, hcomma, value, m₅, hvalue, closing, m₆, hclosing,
        rfl, rfl⟩ := h
      obtain ⟨u, hu, hrule⟩ := hin.dataType hkey
      obtain ⟨hseparator, htakes₂⟩ := (reads_expect (by decide)).mp hcomma
      obtain ⟨v, hv, hrule'⟩ := hin.dataType hvalue
      obtain ⟨hcloses, htakes₃⟩ := (reads_expect (by decide)).mp hclosing
      refine ⟨_, htakes.trans (htakes₁.trans (hu.trans (htakes₂.trans (hv.trans htakes₃)))), ?_⟩
      apply Rules.DataTypeRule.map hname hopens hrule hseparator hrule' hcloses
    · simp only [Bool.false_eq_true, if_false] at h
      rcases (reads_accept_bind (by decide)).mp h with ⟨p, r, hp, htakes₁, h⟩ | ⟨p, -, -, h⟩
      · simp only [if_true, reads_bind, reads_pure] at h
        obtain ⟨ps, m₃, hps, closing, m₄, hclosing, rfl, rfl⟩ := h
        obtain ⟨u, hu, hrule⟩ := commaList_obeys inner.bound typeParameter_obeys hps
        obtain ⟨hcloses, htakes₂⟩ := (reads_expect (by decide)).mp hclosing
        refine ⟨_, htakes.trans (htakes₁.trans (hu.trans htakes₂)), ?_⟩
        apply Rules.DataTypeRule.parametrised hname (.intro hp (.intro hrule hcloses))
      · obtain ⟨rfl, rfl⟩ := reads_pure.mp h
        exact ⟨[t], htakes, .simple hname⟩

omit hin in
/-- A literal as a form. -/
theorem literalForm_obeys :
  (Form.literal <$> literal inner.bound).Obeys G.FormRule
  := by
  intro s form s' h
  obtain ⟨value, hvalue, rfl⟩ := reads_map.mp h
  obtain ⟨used, hused, hrule⟩ := literal_obeys inner.bound hvalue
  exact ⟨used, hused, .literal hrule⟩

theorem primaryForm_obeys {s s' : Tape} {t : Token} {form : Form} (ht : s.peek 0 = .ok t)
    (hreads : (primaryForm inner t).Reads s form s') :
  ∃ used, s.Takes used s' ∧ G.FormRule form used
  := by
  have hword : ∀ {k : Kind} {form' : Form}, t.kind = k → k ≠ .eof →
      (∀ u : Token, u.kind = k → G.FormRule form' [u]) →
      (do let _ ← advance; return form' : Production Form).Reads s form s' →
      ∃ used, s.Takes used s' ∧ G.FormRule form used := by
    intro k form' hk hne hrule h
    simp only [reads_bind, reads_pure] at h
    obtain ⟨_, r, hadvance, rfl, rfl⟩ := h
    obtain ⟨rfl, htakes⟩ := takes_of_advance ht (by rw [hk]; apply hne) hadvance
    exact ⟨[_], htakes, hrule _ hk⟩
  unfold primaryForm at hreads
  split at hreads
  · next hkind => apply hword hkind (by decide) (fun _ => .currentDate) hreads
  · next hkind => apply hword hkind (by decide) (fun _ => .currentTimestamp) hreads
  · apply caseForm_obeys hin hreads
  · apply castForm_obeys hin (dataType_obeys hin) hreads
  · apply literalForm_obeys hreads
  · apply literalForm_obeys hreads
  · apply literalForm_obeys hreads
  · apply literalForm_obeys hreads
  · apply literalForm_obeys hreads
  · apply literalForm_obeys hreads
  · next hkind => apply hword hkind (by decide) (fun _ => .star) hreads
  · next hkind => apply parenForm_obeys hin ht hkind hreads
  · simp only [reads_bind, reads_peekAt] at hreads
    obtain ⟨u, m, ⟨-, rfl⟩, h⟩ := hreads
    split at h
    · apply literalForm_obeys h
    · apply nameForm_obeys hin h
  · split at hreads
    · apply nameForm_obeys hin hreads
    · simp at hreads

theorem primaryExpression_obeys :
  (primaryExpression inner).Obeys G.SignedRule
  := by
  intro s e s' h
  simp only [primaryExpression, reads_bind, reads_peek, reads_spanFrom, reads_pure] at h
  obtain ⟨t, m, ⟨ht, rfl⟩, form, m₁, hform, _, m₂, ⟨rfl, rfl⟩, rfl, rfl⟩ := h
  obtain ⟨used, hused, hrule⟩ := primaryForm_obeys hin ht hform
  use used, hused
  rw [hused.region hrule.ne_nil ht]
  apply Rules.SignedRule.primary hrule

/-! ### Operators -/

theorem signed_obeys :
  (signed inner).Obeys G.SignedRule
  := by
  intro s e s' hreads
  simp only [signed, reads_bind, reads_peek] at hreads
  obtain ⟨t, m, ⟨ht, rfl⟩, h⟩ := hreads
  split at h
  · next op hop =>
      simp only [reads_bind, reads_spanFrom, reads_pure] at h
      obtain ⟨_, m₁, hadvance, operand, m₂, hoperand, _, m₃, ⟨rfl, rfl⟩, rfl, rfl⟩ := h
      have hne : t.kind ≠ .eof := by
        intro heof
        simp [heof, UnaryOp.ofKind?] at hop
      obtain ⟨rfl, htakes⟩ := takes_of_advance ht hne hadvance
      obtain ⟨u, hu, hrule⟩ := hin.signed hoperand
      have htakes' := htakes.trans hu
      refine ⟨_, htakes', ?_⟩
      rw [htakes'.region (by simp) ht]
      apply Rules.SignedRule.sign hop hrule
  · apply primaryExpression_obeys hin h

end

theorem BinaryOp.ne_eof_of_ofKind? {k : Kind} {op : BinaryOp} (h : BinaryOp.ofKind? k = some op) :
  k ≠ .eof
  := by
  rintro rfl
  contradiction

theorem operations_obeys {level : Nat} {operand : Production Expression}
    {R : Expression → List Token → Prop} (h : operand.Obeys R) (n : Nat) {s m s' : Tape}
    {left e : Expression} {u : List Token} (hleft : ChainRule level R left u)
    (htakes : s.Takes u m) (hreads : (operations level operand n left).Reads m e s') :
  ∃ used, s.Takes used s' ∧ ChainRule level R e used
  := by
  induction n generalizing m left u with
  | zero => simp [operations] at hreads
  | succ n ih =>
      simp only [operations, reads_bind, reads_peek] at hreads
      obtain ⟨t, r, ⟨ht, rfl⟩, hreads⟩ := hreads
      split at hreads
      · next op hop =>
          obtain ⟨hop, hlevel⟩ := Option.filter_eq_some_iff.mp hop
          simp only [reads_bind] at hreads
          obtain ⟨_, m₁, hadvance, right, m₂, hright, hreads⟩ := hreads
          obtain ⟨rfl, htakes'⟩ :=
            takes_of_advance ht (BinaryOp.ne_eof_of_ofKind? hop) hadvance
          obtain ⟨v, hv, hrule⟩ := h hright
          apply ih _ (htakes.trans (htakes'.trans hv)) hreads
          apply ChainRule.more hleft hop (by simpa using hlevel) hrule
      · obtain ⟨rfl, rfl⟩ := reads_pure.mp hreads
        exact ⟨u, htakes, hleft⟩

theorem atLevel_obeys {operand : Production Expression} {R : Expression → List Token → Prop}
    (h : operand.Obeys R) (bound level : Nat) :
  (atLevel bound level operand).Obeys (ChainRule level R)
  := by
  intro s e s' hreads
  obtain ⟨left, m, hleft, hreads⟩ := reads_bind.mp hreads
  obtain ⟨u, hu, hrule⟩ := h hleft
  apply operations_obeys h bound (.one hrule) hu hreads

section

variable {inner : Inner} {G : Rules} (hin : inner.Obeys G)

include hin

theorem comparison_obeys :
  (comparison inner).Obeys G.ComparisonRule
  := by
  have hfold : ∀ (levels : List Nat) {operand : Production Expression}
      {R : Expression → List Token → Prop}, operand.Obeys R →
      (levels.foldl (fun operand level => atLevel inner.bound level operand) operand).Obeys
        (levels.foldl (fun operand level => ChainRule level operand) R) := by
    intro levels
    induction levels with
    | nil =>
        intro operand R h
        apply h
    | cons level levels ih =>
        intro operand R h
        apply ih (atLevel_obeys h inner.bound level)
  apply hfold _ (signed_obeys hin)

/-- A predicate that follows, or a token before which `NOT` does not belong to one. -/
theorem predicateForm?_obeys {subject : Expression} {negated : Bool} {s s' : Tape}
    {o : Option Form} (hreads : (predicateForm? inner subject negated).Reads s o s') :
  (∃ form used, o = some form ∧ s.Takes used s' ∧
    G.PredicateFormRule subject negated form used) ∨
  (o = none ∧ s' = s ∧ ∃ t, s.peek 0 = .ok t ∧ isNegatable t.kind = false)
  := by
  simp only [predicateForm?, reads_bind, reads_peek] at hreads
  obtain ⟨t, m, ⟨ht, rfl⟩, h⟩ := hreads
  split at h
  · next hkind =>
      simp only [reads_bind, reads_pure] at h
      obtain ⟨_, m₁, hadvance, low, m₂, hlow, conjunction, m₃, hand, high, m₄, hhigh, rfl, rfl⟩ := h
      obtain ⟨rfl, htakes⟩ := takes_of_advance ht (by simp [hkind]) hadvance
      obtain ⟨u, hu, hrule⟩ := comparison_obeys hin hlow
      obtain ⟨hconjoins, htakes'⟩ := (reads_expect (by decide)).mp hand
      obtain ⟨v, hv, hrule'⟩ := comparison_obeys hin hhigh
      left
      refine ⟨_, _, rfl, htakes.trans (hu.trans (htakes'.trans hv)), ?_⟩
      apply Rules.PredicateFormRule.between hkind hrule hconjoins hrule'
  · next hkind =>
      simp only [reads_bind, reads_peek] at h
      obtain ⟨_, m₁, hadvance, opening, m₂, hopening, u, m, ⟨-, rfl⟩, h⟩ := h
      obtain ⟨rfl, htakes⟩ := takes_of_advance ht (by simp [hkind]) hadvance
      obtain ⟨hopens, htakes'⟩ := (reads_expect (by decide)).mp hopening
      left
      split at h
      · simp only [reads_bind, reads_pure] at h
        obtain ⟨q, m₃, hq, rfl, rfl⟩ := h
        obtain ⟨used, hused, hclosed⟩ := queryToParen_obeys hin hq
        refine ⟨_, _, rfl, htakes.trans (htakes'.trans hused), ?_⟩
        apply Rules.PredicateFormRule.inQuery hkind (.intro hopens hclosed)
      · simp only [reads_bind, reads_pure] at h
        obtain ⟨items, m₃, hitems, rfl, rfl⟩ := h
        obtain ⟨used, hused, hclosed⟩ := expressionsToParen_obeys hin hitems
        refine ⟨_, _, rfl, htakes.trans (htakes'.trans hused), ?_⟩
        apply Rules.PredicateFormRule.inList hkind (.intro hopens hclosed)
  · next hkind =>
      simp only [reads_bind, reads_pure] at h
      obtain ⟨_, m₁, hadvance, pattern, m₂, hpattern, rfl, rfl⟩ := h
      obtain ⟨rfl, htakes⟩ := takes_of_advance ht (by simp [hkind]) hadvance
      obtain ⟨used, hused, hrule⟩ := comparison_obeys hin hpattern
      left
      exact ⟨_, _, rfl, htakes.trans hused, .like (by simpa using hkind) hrule⟩
  · next hkind =>
      simp only [reads_bind, reads_pure] at h
      obtain ⟨_, m₁, hadvance, pattern, m₂, hpattern, rfl, rfl⟩ := h
      obtain ⟨rfl, htakes⟩ := takes_of_advance ht (by simp [hkind]) hadvance
      obtain ⟨used, hused, hrule⟩ := comparison_obeys hin hpattern
      left
      exact ⟨_, _, rfl, htakes.trans hused, .like (by simpa using hkind) hrule⟩
  · next hkind =>
      simp only [reads_bind, reads_pure] at h
      obtain ⟨_, m₁, hadvance, isNegated, m₂, hnot, null, m₃, hnull, rfl, rfl⟩ := h
      obtain ⟨rfl, htakes⟩ := takes_of_advance ht (by simp [hkind]) hadvance
      obtain ⟨used, hused, hplain⟩ := accept_obeys (by rfl) hnot
      obtain ⟨hword, htakes'⟩ := (reads_expect (by decide)).mp hnull
      left
      refine ⟨_, _, rfl, htakes.trans (hused.trans htakes'), .isNull hkind ?_⟩
      apply plain_append.mpr ⟨hplain, plain_cons.mpr ⟨?_, plain_nil⟩⟩
      rw [hword]
      rfl
  · next hbetween hin' hlike hrlike _ =>
      obtain ⟨rfl, rfl⟩ := reads_pure.mp h
      right
      refine ⟨rfl, rfl, t, ht, ?_⟩
      simp only [isNegatable, Bool.or_eq_false_iff, decide_eq_false_iff_not]
      exact ⟨⟨⟨hbetween, hin'⟩, hlike⟩, hrlike⟩

omit hin in
/-- `NOT` is taken if it stands before a predicate. -/
theorem reads_negated {s s' : Tape} {b : Bool} (h : negated.Reads s b s') :
  (b = true ∧ ∃ t u : Token, t.kind = .keyword .NOT ∧ isNegatable u.kind ∧ s.Takes [t] s' ∧
    s'.peek 0 = .ok u) ∨ (b = false ∧ s' = s)
  := by
  simp only [negated, reads_bind, reads_nextIs] at h
  obtain ⟨_, m, ⟨⟨t, ht, rfl⟩, rfl⟩, h⟩ := h
  split at h
  · next hword =>
      have hword : t.kind = .keyword .NOT := by simpa using hword
      simp only [reads_bind, reads_peekAt] at h
      obtain ⟨u, m, ⟨hu, rfl⟩, h⟩ := h
      split at h
      · next hnegatable =>
          simp only [reads_bind, reads_pure] at h
          obtain ⟨_, r, hadvance, rfl, rfl⟩ := h
          obtain ⟨rfl, htakes⟩ := takes_of_advance ht (by simp [hword]) hadvance
          rw [Lookahead.distance, ← Nat.add_zero 1, ← List.length_singleton, htakes.peek_add] at hu
          exact .inl ⟨rfl, _, u, hword, hnegatable, htakes, hu⟩
      · exact .inr (reads_pure.mp h)
  · exact .inr (reads_pure.mp h)

theorem predicate_obeys :
  (predicate inner).Obeys G.PredicateRule
  := by
  intro s e s' hreads
  simp only [predicate, reads_bind, reads_here] at hreads
  obtain ⟨_, m, ⟨⟨first, hfirst, rfl⟩, rfl⟩, subject, m₁, hsubject, negated, m₂, hnegated, o, m₃, ho,
    h⟩ := hreads
  obtain ⟨u, hu, hrule⟩ := comparison_obeys hin hsubject
  rcases predicateForm?_obeys hin ho with
    ⟨form, v, rfl, hv, hform⟩ | ⟨rfl, rfl, next, hnext, hno⟩
  · simp only [reads_bind, reads_spanFrom, reads_pure] at h
    obtain ⟨_, m₄, ⟨rfl, rfl⟩, rfl, rfl⟩ := h
    rcases reads_negated hnegated with ⟨rfl, t, _, hword, -, htakes, -⟩ | ⟨rfl, rfl⟩
    · have htakes' := hu.trans (htakes.trans hv)
      refine ⟨_, htakes', ?_⟩
      rw [htakes'.region (by simp) hfirst]
      apply Rules.PredicateRule.negative hrule hword hform
    · have htakes := hu.trans hv
      use u ++ v, htakes
      rw [htakes.region (by simp [hrule.ne_nil]) hfirst]
      apply Rules.PredicateRule.positive hrule hform
  · obtain ⟨rfl, rfl⟩ := reads_pure.mp h
    rcases reads_negated hnegated with ⟨-, _, t, -, hyes, -, ht⟩ | ⟨-, rfl⟩
    · -- the token behind `NOT` has been looked at
      rw [hnext, Except.ok.injEq] at ht
      subst ht
      rw [hno] at hyes
      contradiction
    · exact ⟨u, hu, .comparison hrule⟩

theorem negation_obeys :
  (negation inner).Obeys G.NegationRule
  := by
  intro s e s' hreads
  simp only [negation, reads_bind, reads_here] at hreads
  obtain ⟨_, m, ⟨⟨first, hfirst, rfl⟩, rfl⟩, h⟩ := hreads
  rcases (reads_accept_bind (by decide)).mp (reads_bind.mpr h) with
    ⟨t, m₁, ht, htakes, h⟩ | ⟨t, -, -, h⟩
  · simp only [if_true, reads_bind, reads_spanFrom, reads_pure] at h
    obtain ⟨operand, m₂, hoperand, _, m₃, ⟨rfl, rfl⟩, rfl, rfl⟩ := h
    obtain ⟨u, hu, hrule⟩ := hin.negation hoperand
    have htakes' := htakes.trans hu
    refine ⟨_, htakes', ?_⟩
    rw [htakes'.region (by simp) hfirst]
    apply Rules.NegationRule.not ht hrule
  · rw [if_neg Bool.false_ne_true] at h
    obtain ⟨isExist, m₁, hexist, h⟩ := reads_bind.mp h
    obtain ⟨rfl, t, ht, hexist⟩ := reads_nextAre.mp hexist
    cases isExist with
    | true =>
        split at hexist
        · next hword =>
            obtain ⟨opening, hpeek, hkind⟩ := hexist
            have hkind : opening.kind = .leftParen := by simpa using hkind
            simp only [if_true, reads_bind, reads_spanFrom, reads_pure] at h
            obtain ⟨_, r, hadvance, _, r', hadvance', q, r'', hq, _, r₃, ⟨rfl, rfl⟩, rfl, rfl⟩ := h
            obtain ⟨rfl, htakes⟩ := takes_of_advance ht (by simp [hword]) hadvance
            rw [← Nat.add_zero 1, ← List.length_singleton, htakes.peek_add] at hpeek
            obtain ⟨rfl, htakes'⟩ := takes_of_advance hpeek (by simp [hkind]) hadvance'
            obtain ⟨u, hu, hclosed⟩ := queryToParen_obeys hin hq
            have htakes'' := htakes.trans (htakes'.trans hu)
            refine ⟨_, htakes'', ?_⟩
            rw [htakes''.region (by simp) hfirst]
            apply Rules.NegationRule.exist hword (.intro hkind hclosed)
        · contradiction
    | false =>
        rw [if_neg Bool.false_ne_true] at h
        obtain ⟨u, hu, hrule⟩ := predicate_obeys hin h
        exact ⟨u, hu, .predicate hrule⟩

theorem expression_obeys :
  (expression inner).Obeys G.ExpressionRule
  := by
  apply atLevel_obeys
  apply atLevel_obeys
  apply negation_obeys hin

end

end SqlFront.Grammar
