import SqlFront.Proofs.Grammar.Follows
import SqlFront.Proofs.Grammar.Intervals
import SqlFront.Proofs.Reading.Mirrors

/-!
# Names and constants side by side

The productions of names and constants give the same on tapes that mirror each other.
-/

namespace SqlFront.Grammar

open Production

variable {c : Mirror} {k : Kind} {s r : Tape}

theorem ne_eof_of_isQuantity (h : isQuantity k) :
  k ≠ .eof
  := by
  rintro rfl
  contradiction

/-! ### Names -/

theorem same_ident {m : Likeness} {t u : Token} (h : m.Matches t u) :
  m.Same (⟨t.text, t.kind = .quotedIdentifier, t.span⟩ : Ident)
    ⟨u.text, u.kind = .quotedIdentifier, u.span⟩
  := by
  rw [h.kind_eq, h.span_eq]
  by_cases hquoted : t.kind = .quotedIdentifier
  · rw [h.text_eq (.inl (by rw [hquoted]; rfl))]
  · simpa [hquoted] using h.letters_eq

theorem ident_mirrored :
  Mirrored c c.likeness.Same ident ident
  := by
  apply mirrored_peek_bind
  intro t u h
  rw [h.congr Kind.isName rfl rfl]
  apply mirrored_ite_of
  · intro hname
    apply mirrored_advance_bind (Kind.ne_eof_of_isName hname)
    intro _ _ _ _
    apply mirrored_pure
    exact same_ident (h.matches_of_ne (Kind.ne_eof_of_isName hname))
  · intro _
    apply mirrored_expected

theorem dottedIdent_mirrored :
  Mirrored c c.likeness.Same dottedIdent dottedIdent
  := by
  apply mirrored_peek_bind
  intro t u h
  simp only [h.kind_iff (k := .dot) rfl]
  apply mirrored_ite_of
  · intro hdot
    rw [hdot]
    apply mirrored_second_bind (by simp)
    intro v w hsecond
    rw [hsecond.congr Kind.isName rfl rfl]
    apply mirrored_ite
    · apply mirrored_advance_bind (by simp)
      intro _ _ _ _
      apply ident_mirrored.some
    · apply mirrored_same
  · intro _
    apply mirrored_same

theorem qualifiedName_mirrored (n : Nat) :
  Mirrored c c.likeness.Same (qualifiedName n) (qualifiedName n)
  := by
  apply mirrored_here.bind
  rintro start _ rfl
  apply ident_mirrored.bind
  intro first first' hfirst
  apply (dottedIdent_mirrored.collect n).bind
  intro further further' hfurther
  apply (mirrored_spanFrom start).bind
  rintro region _ rfl
  apply mirrored_pure
  simpa using ⟨hfirst, hfurther⟩

theorem identList_mirrored (n : Nat) :
  Mirrored c c.likeness.Same (identList n) (identList n)
  := by
  apply (mirrored_expect (by simp)).bind
  intro _ _ _
  apply (ident_mirrored.commaList n).bind
  intro names names' hnames
  apply (mirrored_expect (by simp)).bind
  intro _ _ _
  apply mirrored_pure hnames

theorem columns_mirrored (n : Nat) :
  Mirrored c c.likeness.Same (columns n) (columns n)
  := by
  apply (mirrored_nextIs rfl).bind_ite (identList_mirrored n)
  apply mirrored_same

theorem label?_mirrored :
  Mirrored c c.likeness.Same label? label?
  := by
  apply (mirrored_accept rfl).bind_ite ident_mirrored.some
  apply mirrored_peek_bind
  intro t u h
  rw [h.congr Kind.isName rfl rfl]
  apply mirrored_ite ident_mirrored.some
  apply mirrored_same

/-! ### Constants -/

theorem toUpper_eq_of_same {m : Likeness} {i i' : Ident} (h : m.Same i i') :
  i.value.toUpper = i'.value.toUpper
  := by
  obtain ⟨value, quoted, span⟩ := i
  obtain ⟨value', quoted', span'⟩ := i'
  simp only [Likeness.Same, Likeness.view_ident, Ident.mk.injEq] at h
  obtain ⟨hvalue, rfl, rfl⟩ := h
  cases m with
  | exact => simpa [Likeness.letters] using congrArg String.toUpper hvalue
  | upTo s =>
      cases quoted with
      | false => exact hvalue
      | true => exact congrArg String.toUpper hvalue

theorem unit_mirrored :
  Mirrored c Eq unit unit
  := by
  apply ident_mirrored.bind
  intro i i' hi
  apply mirrored_pure
  apply toUpper_eq_of_same hi

/-- `TO` behind a unit belongs to the interval only if a name follows. -/
theorem toUnit?_mirrored :
  Mirrored c Eq toUnit? toUnit?
  := by
  apply mirrored_peek_match
  · intro t u h
    simp only [h.kind_eq]
    apply mirrored_ite_of
    · intro hto
      rw [hto]
      apply mirrored_second_bind (by simp)
      intro v w hsecond
      rw [hsecond.congr Kind.isName rfl rfl]
      apply mirrored_ite
      · apply mirrored_advance_bind (by simp)
        intro _ _ _ _
        apply unit_mirrored.map
        rintro _ _ rfl
        rfl
      · apply mirrored_pure rfl
    · intro _
      apply mirrored_pure rfl
  · intro t u ht hu s r hpairs hseen
    have htail := hpairs.tokens_of_nil (hpairs.tokens_of_seen hseen)
    simp only [ht, reduceCtorEq, if_false]
    by_cases hto : u.kind = .keyword .TO
    · obtain ⟨v, more, hclosing, hname⟩ := Mirror.tail_of_to hu hto
      have hpeek : r.peek 1 = .ok v := by
        rw [Tape.peek, htail, hclosing]
        rfl
      have hnone : (do
          if (← peekAt .second).kind.isName then
            let _ ← advance
            some <$> unit
          else return none : Production (Option String)).eval r = (.ok none, r) := by
        simp only [eval_bind, peekAt, eval, Lookahead.distance, hpeek, hname, Bool.false_eq_true,
          if_false]
        rfl
      rw [if_pos hto, hnone]
      exact .value rfl hpairs
    · rw [if_neg hto]
      exact .value rfl hpairs

theorem quantitySign_mirrored :
  Mirrored c Eq quantitySign quantitySign
  := by
  apply (mirrored_accept rfl).bind_ite
  · apply mirrored_pure rfl
  · apply (mirrored_accept rfl).bind
    intro _ _ _
    apply mirrored_pure rfl

/-- A quantity that is written as a number may differ in case, one in quotes may not. -/
theorem agrees_quantity (hpairs : c.Pairs s r) (minus : Bool) :
  c.Agrees (fun v w => ∃ quoted others, quotedQuantities s.tokens = quoted :: others ∧
      if quoted then v = w else c.likeness.letters v = c.likeness.letters w)
    ((quantity minus).eval s) ((quantity minus).eval r)
  := by
  apply agrees_peek_bind hpairs
  intro t u ht h
  have hseen : s.Seen [t.kind] := s.seen_nil.concat ht
  rw [h.congr isQuantity rfl rfl]
  simp only [h.kind_iff (k := .string) rfl]
  split
  · next hquantity =>
      have hne := ne_eof_of_isQuantity hquantity
      have hmatches := h.matches_of_ne hne
      obtain ⟨m, -, htakes⟩ := Tape.next_of_peek ht hne
      refine mirrored_advance_bind hne ?_ s r hpairs hseen
      intro _ _ _ _
      apply mirrored_pure
      refine ⟨false, quotedQuantities m.tokens, ?_, ?_⟩
      · rw [htakes.tokens_eq]
        exact quotedQuantities_of_number hquantity
      · simp [Likeness.letters_append, hmatches.letters_eq]
  · split
    · next hstring =>
        have hne : t.kind ≠ .eof := by simp [hstring.1]
        have hmatches := h.matches_of_ne hne
        obtain ⟨m, -, htakes⟩ := Tape.next_of_peek ht hne
        refine mirrored_advance_bind hne ?_ s r hpairs hseen
        intro _ _ _ _
        apply mirrored_pure
        refine ⟨true, quotedQuantities m.tokens, ?_, ?_⟩
        · rw [htakes.tokens_eq]
          exact quotedQuantities_of_text hstring.1
        · simp [hmatches.text_eq (.inl (by rw [hstring.1]; rfl))]
    · exact mirrored_expected _ s r hpairs s.seen_nil

/-- Two fields are alike by the first of the quantities from where they are read. -/
def SameFrom (m : Likeness) (ts : List Token) (f g : IntervalField) : Prop :=
  ∃ quoted others, quotedQuantities ts = quoted :: others ∧ m.SameField quoted f g

theorem agrees_intervalField (hpairs : c.Pairs s r) :
  c.Agrees (SameFrom c.likeness s.tokens) (intervalField.eval s) (intervalField.eval r)
  := by
  apply agrees_bind_reads (quantitySign_mirrored s r hpairs s.seen_nil)
  rintro minus _ s₁ r₁ hminus rfl hpairs₁
  have hquantities := quotedQuantities_of_quantitySign hminus
  apply agrees_bind (agrees_quantity hpairs₁ minus)
  rintro value value' ⟨quoted, others, hquoted, hvalue⟩
  apply unit_mirrored.bind
  rintro first _ rfl
  apply toUnit?_mirrored.bind
  rintro last _ rfl
  apply mirrored_pure
  refine ⟨quoted, others, hquantities.trans hquoted, ?_⟩
  cases quoted <;> simp_all [Likeness.field_eq]

theorem intervalFieldFollows_mirrored :
  Mirrored c Eq intervalFieldFollows intervalFieldFollows
  := by
  apply mirrored_peek_bind
  intro t u h
  simp only [h.kind_iff (k := .plus) rfl, h.kind_iff (k := .minus) rfl,
    h.kind_iff (k := .string) rfl, h.congr isQuantity rfl rfl]
  apply mirrored_ite_of
  · intro hsign
    have hne : t.kind ≠ .eof := by
      rcases hsign with h | h <;> simp [h]
    apply mirrored_second_bind hne
    intro v w hsecond
    rw [hsecond.congr isQuantity rfl rfl]
    apply mirrored_ite_of
    · intro hquantity
      apply mirrored_third_bind hne (ne_eof_of_isQuantity hquantity)
      intro x y hthird
      apply mirrored_pure
      rw [hthird.congr Kind.isName rfl rfl]
    · intro _
      apply mirrored_pure rfl
  · intro _
    apply mirrored_ite_of
    · intro hfirst
      have hne : t.kind ≠ .eof := by
        rcases hfirst with h | h
        · apply ne_eof_of_isQuantity h
        · simp [h]
      apply mirrored_second_bind hne
      intro v w hsecond
      apply mirrored_pure
      rw [hsecond.congr Kind.isName rfl rfl]
    · intro _
      apply mirrored_pure rfl

/-- The quantity of a field is the first one from where the field is read, and those of further
fields are the others. -/
theorem sameFields_cons {m : Likeness} {s' : Tape} {f g : IntervalField} {fs gs : List IntervalField}
    (hreads : intervalField.Reads s f s') (hfirst : SameFrom m s.tokens f g)
    (hfurther : m.SameFields (quotedQuantities s'.tokens) fs gs) :
  m.SameFields (quotedQuantities s.tokens) (f :: fs) (g :: gs)
  := by
  obtain ⟨quoted, others, hquoted, hfield⟩ := hfirst
  obtain ⟨_, hreads⟩ := exists_quotedQuantities_of_intervalField hreads
  rw [hquoted, List.cons.injEq] at hreads
  obtain ⟨rfl, rfl⟩ := hreads
  rw [hquoted]
  simpa using ⟨hfield, hfurther⟩

theorem agrees_nextField? (hpairs : c.Pairs s r) :
  c.Agrees (Option.Rel (SameFrom c.likeness s.tokens)) (nextField?.eval s) (nextField?.eval r)
  := by
  apply agrees_bind_reads (intervalFieldFollows_mirrored s r hpairs s.seen_nil)
  rintro follows _ s₁ r₁ hfollows rfl hpairs₁
  obtain rfl := intervalFieldFollows_reads hfollows
  split
  · apply agrees_bind (agrees_intervalField hpairs₁)
    intro f g hfield
    exact mirrored_pure (.some hfield)
  · exact .value .none hpairs₁

theorem agrees_collect_nextField? (n : Nat) {found found' : List IntervalField}
    (hpairs : c.Pairs s r) :
  c.Agrees (fun fs gs => ∃ new new', fs = found.reverse ++ new ∧ gs = found'.reverse ++ new' ∧
      c.likeness.SameFields (quotedQuantities s.tokens) new new')
    ((collect nextField? n found).eval s) ((collect nextField? n found').eval r)
  := by
  induction n generalizing found found' s r with
  | zero => exact mirrored_fail (fun _ _ _ => rfl) s r hpairs s.seen_nil
  | succ n ih =>
      apply agrees_bind_reads (agrees_nextField? hpairs)
      rintro o o' s₁ r₁ hreads hrel hpairs₁
      cases hrel with
      | none => exact .value ⟨[], [], by simp, by simp, by simp⟩ hpairs₁
      | @some f g hfield =>
          apply (ih hpairs₁).mono
          rintro _ _ ⟨new, new', rfl, rfl, hnew⟩
          refine ⟨f :: new, g :: new', by simp, by simp, ?_⟩
          exact sameFields_cons (intervalField_of_nextField? hreads) hfield hnew

/-- The fields of intervals are alike by the quantities from where they are read. -/
theorem agrees_intervalFields (n : Nat) (hpairs : c.Pairs s r) :
  c.Agrees (c.likeness.SameFields (quotedQuantities s.tokens)) ((intervalFields n).eval s)
    ((intervalFields n).eval r)
  := by
  apply agrees_bind_reads (agrees_intervalField hpairs)
  rintro first first' s₁ r₁ hreads hfirst hpairs₁
  apply agrees_bind (agrees_collect_nextField? n hpairs₁)
  rintro _ _ ⟨further, further', rfl, rfl, hfurther⟩
  exact mirrored_pure (sameFields_cons hreads hfirst hfurther)

theorem text_mirrored (n : Nat) :
  Mirrored c Eq (text n) (text n)
  := by
  apply (mirrored_collect (mirrored_accept? rfl) n .nil).bind
  intro parts parts' hparts
  apply mirrored_pure
  apply congrArg String.join
  induction hparts with
  | nil => rfl
  | cons h _ ih =>
      obtain ⟨hmatches, hstring⟩ := h
      simp only [List.map_cons, ih, hmatches.text_eq (.inl (by rw [hstring]; rfl))]

theorem typedText_mirrored {t u : Token} (h : c.likeness.Matches t u) (hk : k ≠ .eof) :
  MirroredAt c [k] Eq (typedText t.text) (typedText u.text)
  := by
  apply mirrored_advance_bind hk
  intro _ _ _ _
  apply (mirrored_expect (by simp)).bind
  rintro v w ⟨hmatches, hstring⟩
  apply mirrored_pure
  rw [h.toUpper_eq, hmatches.text_eq (.inl (by rw [hstring]; rfl))]

/-- An interval is read behind its keyword, which is no quantity. -/
theorem interval_mirrored (n : Nat) {t : Token} (ht : t.kind = .keyword .INTERVAL) :
  MirroredFrom c t (c.likeness.SameLiteral t.span.start)
    (advance >>= fun _ => Literal.interval <$> intervalFields n)
    (advance >>= fun _ => Literal.interval <$> intervalFields n)
  := by
  intro s r hpairs hpeek
  have hne : t.kind ≠ .eof := by simp [ht]
  have hadvance : MirroredAt c [t.kind] (fun _ _ => True) advance advance :=
    mirrored_take hne fun _ _ _ _ => mirrored_pure trivial
  apply agrees_bind_reads (hadvance s r hpairs (s.seen_nil.concat hpeek))
  intro _ _ s₁ r₁ hreads _ hpairs₁
  have htakes := (takes_of_advance hpeek hne hreads).2
  have hquantities : quotedQuantities (t :: s₁.tokens) = quotedQuantities s₁.tokens :=
    quotedQuantities_cons_of_ne (by simp [ht, isQuantity]) (by simp [ht])
  have hdescribed := hpairs.described
  rw [htakes.tokens_eq] at hdescribed
  apply agrees_bind (agrees_intervalFields n hpairs₁)
  intro fields fields' hfields
  rw [← hquantities] at hfields
  exact mirrored_pure (hdescribed.sameLiteral hfields)

/-- A number with a minus sign before it. -/
theorem negative_mirrored (p : Position) :
  MirroredAt c [.minus] (c.likeness.SameLiteral p)
    (do
      match (← peekAt .second).kind with
      | .number form =>
        let _ ← advance
        return .number form ("-" ++ (← advance).text)
      | _ => expected "constant")
    (do
      match (← peekAt .second).kind with
      | .number form =>
        let _ ← advance
        return .number form ("-" ++ (← advance).text)
      | _ => expected "constant")
  := by
  apply mirrored_second_bind (by simp)
  intro v w hsecond
  cases hsecond with
  | matched hsecond =>
      rw [hsecond.kind_eq]
      split
      · next hnumber =>
          rw [hnumber]
          apply mirrored_advance_bind (by simp)
          intro _ _ _ _
          apply mirrored_advance_bind (by simp)
          intro x y hmatches _
          apply mirrored_pure
          simp [Likeness.literal_eq, Likeness.letters_append, hmatches.letters_eq]
      · apply mirrored_expected
  | ended closes =>
      rcases Mirror.closes_of_mem_head? closes with hw | hw <;> rw [hw] <;> apply mirrored_expected

theorem literal_mirrored (n : Nat) (t : Token) :
  MirroredFrom c t (c.likeness.SameLiteral t.span.start) (literal n) (literal n)
  := by
  have hsame : ∀ {ks : List Kind} (value : Literal),
      MirroredAt c ks (c.likeness.SameLiteral t.span.start) (pure value) (pure value) :=
    fun value => mirrored_pure rfl
  have hword : ∀ (value : Literal) (k : Kind), k ≠ .eof →
      MirroredAt c [k] (c.likeness.SameLiteral t.span.start) (do
      let _ ← advance
      return value : Production Literal) (do
      let _ ← advance
      return value : Production Literal) := by
    intro value k hk
    apply mirrored_advance_bind hk
    intro _ _ _ _
    apply hsame
  apply MirroredFrom.peek_match
  · intro u h
    rw [h.kind_eq]
    split
    · next hk => exact (hword _ _ (by simp [hk])).from
    · next hk => exact (hword _ _ (by simp [hk])).from
    · next hk => exact (hword _ _ (by simp [hk])).from
    · next hk => exact interval_mirrored n hk
    · apply MirroredAt.from
      apply Mirrored.seen
      apply (text_mirrored n).bind
      rintro value _ rfl
      apply hsame
    · next hk =>
        apply MirroredAt.from
        rw [hk]
        apply negative_mirrored
    · next hk =>
        apply MirroredFrom.second_bind (by simp [hk])
        intro v w hsecond
        simp only [hsecond.kind_iff (k := .string) rfl]
        apply MirroredAt.from
        apply mirrored_ite _ (mirrored_expected _)
        apply (typedText_mirrored h (by simp [hk])).mono
        rintro value _ rfl
        rfl
    · next hk =>
        apply MirroredAt.from
        apply mirrored_advance_bind (by simp [hk])
        intro _ _ _ _
        apply mirrored_pure
        simp [Likeness.literal_eq, h.letters_eq]
    · exact (mirrored_expected _).from
  · intro u ht hu
    apply MirroredAt.from
    rw [ht]
    apply mirrored_expected_end hu

theorem constant_mirrored (n : Nat) :
  Mirrored c c.likeness.Same (constant n) (constant n)
  := by
  apply mirrored_here_from
  intro t
  apply (literal_mirrored n t).bind
  intro value value' hvalue
  apply (mirrored_spanFrom_start t.span.start).bind
  rintro region _ ⟨rfl, hstart⟩
  apply mirrored_pure
  simpa [hstart] using hvalue

theorem textConstant_mirrored (n : Nat) :
  Mirrored c c.likeness.Same (textConstant n) (textConstant n)
  := (mirrored_nextIs rfl).bind_ite (constant_mirrored n) (mirrored_expected _)

/-! ### One level further in -/

/-- A tape that has no tokens, or only a parenthesis that opens. -/
def IsOpen (s : Tape) : Prop := s.tokens = [] ∨ ∃ t, s.tokens = [t] ∧ t.kind = .leftParen

/-- The productions one level further in give the same on tapes that mirror each other, and an
expression is more than a parenthesis that opens. -/
structure Inner.Mirrored (c : Mirror) (inner : Inner) : Prop where
  expression : Production.Mirrored c c.likeness.Same inner.expression inner.expression
  negation : Production.Mirrored c c.likeness.Same inner.negation inner.negation
  signed : Production.Mirrored c c.likeness.Same inner.signed inner.signed
  query : Production.Mirrored c c.likeness.Same inner.query inner.query
  primary : Production.Mirrored c c.likeness.Same inner.primary inner.primary
  dataType : Production.Mirrored c Eq inner.dataType inner.dataType
  fails (s : Tape) (hs : IsOpen s) : ∃ e s', inner.expression.eval s = (.error e, s')

end SqlFront.Grammar
