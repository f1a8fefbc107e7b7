import SqlFront.Proofs.Grammar.Obeys
import SqlFront.Proofs.Printing.Reading
import SqlFront.Proofs.Reading.Ahead
import SqlFront.Proofs.Tree.Case

/-!
# Intervals

Behind `INTERVAL` stand one or more fields, each a quantity, a unit and, behind `TO`, another unit
(`Grammar.FieldsRule`).  Whether a further field is read is decided by looking at up to three tokens,
and a field is read without looking back at that decision; both follow the same rule
(`Grammar.reads_intervalFields`).  Only the first field, about which nothing is decided, is read
where the rule has none: a plus sign before a text is passed over (`Grammar.PassedOver`).
-/

namespace SqlFront

namespace Grammar

open Production

/-! ### The rules -/

/-- A quantity is a number, behind a sign or not, or a text.  A minus sign is kept and a plus sign
is not. -/
inductive QuantityRule : String → List Token → Prop where
  | number {t : Token} (isNumber : isQuantity t.kind) : QuantityRule t.text [t]
  | plus {sign t : Token} (isPlus : sign.kind = .plus) (isNumber : isQuantity t.kind) :
      QuantityRule t.text [sign, t]
  | minus {sign t : Token} (isMinus : sign.kind = .minus) (isNumber : isQuantity t.kind) :
      QuantityRule ("-" ++ t.text) [sign, t]
  | text {t : Token} (isText : t.kind = .string) : QuantityRule (Text.unescape t.text) [t]

/-- The tokens go on with `TO` and a unit. -/
inductive RangeAhead : List Token → Prop where
  | intro {link last : Token} {more : List Token} (isTo : link.kind = .keyword .TO)
      (isLast : last.kind.isName) : RangeAhead (link :: last :: more)

/-- The tokens go on with a quantity and a unit. -/
inductive FieldAhead : List Token → Prop where
  | intro {value : String} {used more : List Token} {unit : Token}
      (quantity : QuantityRule value used) (isUnit : unit.kind.isName) :
      FieldAhead (used ++ unit :: more)

/-- A field of an interval with what is left behind it: a quantity and a unit, and another unit if
`TO` and a unit follow.  Units are written in capitals. -/
inductive FieldRule : IntervalField → List Token → List Token → Prop where
  | single {value : String} {used rest : List Token} {unit : Token}
      (quantity : QuantityRule value used) (isUnit : unit.kind.isName) (ends : ¬ RangeAhead rest) :
      FieldRule ⟨value, unit.text.toUpper, none⟩ (used ++ [unit]) rest
  | range {value : String} {used rest : List Token} {unit link last : Token}
      (quantity : QuantityRule value used) (isUnit : unit.kind.isName)
      (isTo : link.kind = .keyword .TO) (isLast : last.kind.isName) :
      FieldRule ⟨value, unit.text.toUpper, some last.text.toUpper⟩ (used ++ [unit, link, last]) rest

/-- The fields of an interval with what is left behind them: one, and further ones as long as a
quantity and a unit follow. -/
inductive FieldsRule : List IntervalField → List Token → List Token → Prop where
  | last {f : IntervalField} {used rest : List Token} (field : FieldRule f used rest)
      (ends : ¬ FieldAhead rest) : FieldsRule [f] used rest
  | cons {f : IntervalField} {fs : List IntervalField} {used others rest : List Token}
      (field : FieldRule f used (others ++ rest)) (further : FieldsRule fs others rest) :
      FieldsRule (f :: fs) (used ++ others) rest

/-- What is passed over before the tokens of a first field: nothing, or a plus sign before a text. -/
inductive PassedOver : List Token → List Token → Prop where
  | nothing {ts : List Token} : PassedOver [] ts
  | plus {sign t : Token} {more : List Token} (isPlus : sign.kind = .plus)
      (isText : t.kind = .string) : PassedOver [sign] (t :: more)

variable {s m s' : Tape} {p : Position} {value : String} {f : IntervalField}
  {fs : List IntervalField} {used rest ts : List Token}

/-! ### Looking ahead -/

/-- Whether a range follows is seen at the next two tokens. -/
theorem rangeAhead_iff :
  RangeAhead ts ↔ Token.kindAt ts 0 = .keyword .TO ∧ (Token.kindAt ts 1).isName
  := by
  constructor
  · rintro ⟨isTo, isLast⟩
    exact ⟨isTo, isLast⟩
  · rintro ⟨isTo, isLast⟩
    have hlink : Token.kindAt ts 0 ≠ .eof := by
      rw [isTo]
      decide
    obtain ⟨link, ts, rfl⟩ := Token.exists_cons_of_kindAt hlink
    rw [Token.kindAt_cons_succ] at isLast
    obtain ⟨last, more, rfl⟩ := Token.exists_cons_of_kindAt (Kind.ne_eof_of_isName isLast)
    exact .intro isTo isLast

/-- The numbers among the quantities are the integers and the decimals. -/
theorem isQuantity_iff {k : Kind} :
  isQuantity k ↔ k = .number .integer ∨ k = .number .decimal
  := by
  simp [isQuantity]

/-- Whether a field follows is seen at the next three tokens. -/
theorem fieldAhead_iff :
  FieldAhead ts ↔
    if Token.kindAt ts 0 = .plus ∨ Token.kindAt ts 0 = .minus then
      isQuantity (Token.kindAt ts 1) ∧ (Token.kindAt ts 2).isName
    else (isQuantity (Token.kindAt ts 0) ∨ Token.kindAt ts 0 = .string) ∧
      (Token.kindAt ts 1).isName
  := by
  constructor
  · rintro ⟨quantity, isUnit⟩
    cases quantity with
    | number isNumber =>
        rw [if_neg]
        · exact ⟨.inl isNumber, isUnit⟩
        · rcases isQuantity_iff.mp isNumber with h | h <;> simp [h]
    | plus isPlus isNumber =>
        rw [if_pos (.inl isPlus)]
        exact ⟨isNumber, isUnit⟩
    | minus isMinus isNumber =>
        rw [if_pos (.inr isMinus)]
        exact ⟨isNumber, isUnit⟩
    | text isText =>
        rw [if_neg (by simp [isText])]
        exact ⟨.inr isText, isUnit⟩
  · intro h
    rcases ts with _ | ⟨t, _ | ⟨u, more⟩⟩
    · simp [isQuantity] at h
    · simp [isQuantity, Kind.isName, Kind.isIdentifier] at h
    · rw [Token.kindAt_cons_zero, Token.kindAt_cons_succ, Token.kindAt_cons_succ,
        Token.kindAt_cons_zero] at h
      split at h
      · next hsign =>
          obtain ⟨isNumber, isUnit⟩ := h
          obtain ⟨unit, more, rfl⟩ :=
            Token.exists_cons_of_kindAt (Kind.ne_eof_of_isName isUnit)
          rcases hsign with isPlus | isMinus
          · exact .intro (.plus isPlus isNumber) isUnit
          · exact .intro (.minus isMinus isNumber) isUnit
      · obtain ⟨isNumber | isText, isUnit⟩ := h
        · exact .intro (.number isNumber) isUnit
        · exact .intro (.text isText) isUnit

/-- Looking finds a field exactly if one is ahead. -/
theorem exists_intervalFieldFollows (hstop : s.stop = .ok p) :
  ∃ found : Bool, (found ↔ FieldAhead s.tokens) ∧ intervalFieldFollows.Reads s found s
  := by
  obtain ⟨t, ht, hkind⟩ := Tape.exists_peek hstop 0
  obtain ⟨u, hu, hkind'⟩ := Tape.exists_peek hstop 1
  obtain ⟨v, hv, hkind''⟩ := Tape.exists_peek hstop 2
  have hfirst : peek.Reads s t s := reads_peek.mpr ⟨ht, rfl⟩
  have hsecond := reads_second hu
  have hthird : (peekAt .third).Reads s v s := reads_peekAt.mpr ⟨hv, rfl⟩
  rw [fieldAhead_iff, ← hkind, ← hkind', ← hkind'']
  by_cases hsign : t.kind = .plus ∨ t.kind = .minus
  · by_cases hnumber : isQuantity u.kind
    · refine ⟨v.kind.isName, by simp [hsign, hnumber], hfirst.bind ?_⟩
      rw [if_pos hsign]
      apply hsecond.bind
      rw [if_pos hnumber]
      apply hthird.bind
      apply reads_done_self
    · refine ⟨false, by simp [hsign, hnumber], hfirst.bind ?_⟩
      rw [if_pos hsign]
      apply hsecond.bind
      rw [if_neg hnumber]
      apply reads_done_self
  · by_cases hvalue : isQuantity t.kind ∨ t.kind = .string
    · refine ⟨u.kind.isName, by simp [hsign, hvalue], hfirst.bind ?_⟩
      rw [if_neg hsign, if_pos hvalue]
      apply hsecond.bind
      apply reads_done_self
    · refine ⟨false, by simp [hsign, hvalue], hfirst.bind ?_⟩
      rw [if_neg hsign, if_neg hvalue]
      apply reads_done_self

theorem reads_intervalFieldFollows (hstop : s.stop = .ok p) {b : Bool} :
  intervalFieldFollows.Reads s b s' ↔ (b ↔ FieldAhead s.tokens) ∧ s' = s
  := by
  obtain ⟨found, hahead, hreads⟩ := exists_intervalFieldFollows hstop
  constructor
  · intro h
    obtain ⟨rfl, rfl⟩ := h.unique hreads
    exact ⟨hahead, rfl⟩
  · rintro ⟨hb, rfl⟩
    obtain rfl : b = found := Bool.eq_iff_iff.mpr (hb.trans hahead.symm)
    exact hreads

/-! ### Fields -/

theorem reads_unit {value : String} :
  unit.Reads s value m ↔ ∃ t : Token, t.kind.isName ∧ value = t.text.toUpper ∧ s.Takes [t] m
  := by
  simp only [unit, reads_bind, reads_pure, reads_ident]
  constructor
  · rintro ⟨i, r, ⟨t, hname, htakes, rfl⟩, rfl, rfl⟩
    exact ⟨t, hname, rfl, htakes⟩
  · rintro ⟨t, hname, rfl, htakes⟩
    exact ⟨_, m, ⟨t, hname, htakes, rfl⟩, rfl, rfl⟩

/-- A range is read where `TO` and a unit follow. -/
theorem reads_toUnit?_range {link last : Token} (isTo : link.kind = .keyword .TO)
    (isLast : last.kind.isName) (h : s.Takes [link, last] m) :
  toUnit?.Reads s (some last.text.toUpper) m
  := by
  obtain ⟨r, hlink, hlast⟩ := Tape.takes_cons.mp h
  apply Reads.bind (reads_peek.mpr ⟨hlink.peek_zero, rfl⟩)
  rw [if_pos isTo]
  apply (reads_second (hlink.peek_one.trans hlast.peek_zero)).bind
  rw [if_pos isLast]
  apply (reads_advance hlink).bind
  apply Reads.map (reads_unit.mpr ⟨last, isLast, rfl, hlast⟩)

/-- Where no range follows, none is read. -/
theorem reads_toUnit?_single (hstop : s.stop = .ok p) (h : ¬ RangeAhead s.tokens) :
  toUnit?.Reads s none s
  := by
  obtain ⟨t, ht, hkind⟩ := Tape.exists_peek hstop 0
  obtain ⟨u, hu, hkind'⟩ := Tape.exists_peek hstop 1
  rw [rangeAhead_iff, ← hkind, ← hkind'] at h
  apply Reads.bind (reads_peek.mpr ⟨ht, rfl⟩)
  split
  · next isTo =>
      apply (reads_second hu).bind
      rw [if_neg fun isLast => h ⟨isTo, isLast⟩]
      apply reads_done_self
  · apply reads_done_self

theorem reads_toUnit? (hstop : s.stop = .ok p) {o : Option String} :
  toUnit?.Reads s o m ↔
    (∃ link last, link.kind = .keyword .TO ∧ last.kind.isName ∧ o = some last.text.toUpper ∧
      s.Takes [link, last] m) ∨ ¬ RangeAhead s.tokens ∧ o = none ∧ m = s
  := by
  constructor
  · intro h
    by_cases hrange : RangeAhead s.tokens
    · left
      obtain ⟨ts, stop, a⟩ := s
      cases hrange with
      | @intro link last more isTo isLast =>
          have htakes : Tape.Takes ⟨link :: last :: more, stop, a⟩ [link, last]
              ⟨more, stop, last.span⟩ := ⟨rfl, rfl, rfl⟩
          obtain ⟨rfl, rfl⟩ := h.unique (reads_toUnit?_range isTo isLast htakes)
          exact ⟨link, last, isTo, isLast, rfl, htakes⟩
    · right
      obtain ⟨rfl, rfl⟩ := h.unique (reads_toUnit?_single hstop hrange)
      exact ⟨hrange, rfl, rfl⟩
  · rintro (⟨link, last, isTo, isLast, rfl, htakes⟩ | ⟨hrange, rfl, rfl⟩)
    · apply reads_toUnit?_range isTo isLast htakes
    · apply reads_toUnit?_single hstop hrange

theorem reads_quantitySign {minus : Bool} :
  quantitySign.Reads s minus m ↔
    (∃ t : Token, t.kind = (if minus then .minus else .plus) ∧ s.Takes [t] m) ∨
    minus = false ∧ m = s ∧ ∃ t, s.peek 0 = .ok t ∧ t.kind ≠ .minus ∧ t.kind ≠ .plus
  := by
  simp only [quantitySign, reads_accept_bind (k := .minus) (by decide), if_true,
    Bool.false_eq_true, if_false, reads_bind, reads_pure, reads_accept (k := .plus) (by decide)]
  constructor
  · rintro (⟨t, r, hkind, htakes, rfl, rfl⟩ | ⟨t, ht, hminus, plus, r, hplus, rfl, rfl⟩)
    · left
      exact ⟨t, hkind, htakes⟩
    · rcases hplus with ⟨rfl, u, hkind, htakes⟩ | ⟨rfl, rfl, u, hu, hkind⟩
      · left
        exact ⟨u, hkind, htakes⟩
      · right
        obtain rfl : t = u := Except.ok.inj (ht.symm.trans hu)
        exact ⟨rfl, rfl, t, ht, hminus, hkind⟩
  · rintro (⟨t, hkind, htakes⟩ | ⟨rfl, rfl, t, ht, hminus, hplus⟩)
    · cases minus with
      | true =>
          left
          exact ⟨t, m, hkind, htakes, rfl, rfl⟩
      | false =>
          right
          have hplus : t.kind = .plus := hkind
          refine ⟨t, htakes.peek_zero, by simp [hplus], true, m, ?_, rfl, rfl⟩
          left
          exact ⟨rfl, t, hplus, htakes⟩
    · right
      refine ⟨t, ht, hminus, false, m, ?_, rfl, rfl⟩
      right
      exact ⟨rfl, rfl, t, ht, hplus⟩

/-- Behind the sign, a number is read, and a text unless the sign is a minus. -/
theorem reads_quantity {minus : Bool} :
  (quantity minus).Reads s value m ↔ ∃ t, s.Takes [t] m ∧
    (isQuantity t.kind ∧ value = (if minus then "-" else "") ++ t.text ∨
      t.kind = .string ∧ minus = false ∧ value = Text.unescape t.text)
  := by
  simp only [quantity, reads_bind, reads_peek]
  constructor
  · rintro ⟨t, r, ⟨ht, rfl⟩, h⟩
    split at h
    · next hnumber =>
        simp only [reads_bind, reads_pure] at h
        obtain ⟨u, r, hadvance, rfl, rfl⟩ := h
        obtain ⟨rfl, htakes⟩ :=
          takes_of_advance ht (Kind.ne_eof_of_isPlain (isPlain_of_isQuantity hnumber)) hadvance
        exact ⟨u, htakes, .inl ⟨hnumber, rfl⟩⟩
    · split at h
      · next htext =>
          simp only [reads_bind, reads_pure] at h
          obtain ⟨u, r, hadvance, rfl, rfl⟩ := h
          obtain ⟨rfl, htakes⟩ := takes_of_advance ht (by simp [htext.1]) hadvance
          exact ⟨u, htakes, .inr ⟨htext.1, by simpa using htext.2, rfl⟩⟩
      · simp at h
  · rintro ⟨t, htakes, ⟨hnumber, rfl⟩ | ⟨htext, rfl, rfl⟩⟩
    · refine ⟨t, s, ⟨htakes.peek_zero, rfl⟩, ?_⟩
      rw [if_pos hnumber]
      apply (reads_advance htakes).bind
      apply reads_done_self
    · refine ⟨t, s, ⟨htakes.peek_zero, rfl⟩, ?_⟩
      rw [if_neg (by simp [htext, isQuantity]), if_pos ⟨htext, rfl⟩]
      apply (reads_advance htakes).bind
      apply reads_done_self

/-- A number or a text has no sign before it. -/
theorem reads_quantitySign_none {t : Token} (h : s.Takes [t] m)
    (ht : isQuantity t.kind ∨ t.kind = .string) :
  quantitySign.Reads s false s
  := by
  apply reads_quantitySign.mpr
  right
  refine ⟨rfl, rfl, t, h.peek_zero, ?_, ?_⟩
  · rintro hminus
    simp [hminus, isQuantity] at ht
  · rintro hplus
    simp [hplus, isQuantity] at ht

/-- What is read as sign and quantity follows the rule, but a plus sign may have been passed over. -/
theorem quantityRule_of_reads {minus : Bool} {r : Tape} (hsign : quantitySign.Reads s minus r)
    (hquantity : (quantity minus).Reads r value m) :
  ∃ passed used, PassedOver passed used ∧ QuantityRule value used ∧ s.Takes (passed ++ used) m
  := by
  obtain ⟨t, htakes, ht⟩ := reads_quantity.mp hquantity
  rcases reads_quantitySign.mp hsign with ⟨sign, hkind, hsigntakes⟩ | ⟨rfl, rfl, -⟩
  · cases minus with
    | true =>
        rcases ht with ⟨hnumber, rfl⟩ | ⟨-, hminus, -⟩
        · exact ⟨[], [sign, t], .nothing, .minus hkind hnumber, hsigntakes.trans htakes⟩
        · contradiction
    | false =>
        rcases ht with ⟨hnumber, rfl⟩ | ⟨htext, -, rfl⟩
        · refine ⟨[], [sign, t], .nothing, ?_, hsigntakes.trans htakes⟩
          simpa using .plus hkind hnumber
        · exact ⟨[sign], [t], .plus hkind htext, .text htext, hsigntakes.trans htakes⟩
  · rcases ht with ⟨hnumber, rfl⟩ | ⟨htext, -, rfl⟩
    · refine ⟨[], [t], .nothing, ?_, htakes⟩
      simpa using .number hnumber
    · exact ⟨[], [t], .nothing, .text htext, htakes⟩

theorem reads_quantityRule (h : QuantityRule value used) (htakes : s.Takes used m) :
  ∃ minus r, quantitySign.Reads s minus r ∧ (quantity minus).Reads r value m
  := by
  cases h with
  | @number t isNumber =>
      use false, s, reads_quantitySign_none htakes (.inl isNumber)
      exact reads_quantity.mpr ⟨t, htakes, .inl ⟨isNumber, by simp⟩⟩
  | @plus sign t isPlus isNumber =>
      obtain ⟨r, hsign, hnumber⟩ := Tape.takes_cons.mp htakes
      use false, r, reads_quantitySign.mpr (.inl ⟨sign, isPlus, hsign⟩)
      exact reads_quantity.mpr ⟨t, hnumber, .inl ⟨isNumber, by simp⟩⟩
  | @minus sign t isMinus isNumber =>
      obtain ⟨r, hsign, hnumber⟩ := Tape.takes_cons.mp htakes
      use true, r, reads_quantitySign.mpr (.inl ⟨sign, isMinus, hsign⟩)
      exact reads_quantity.mpr ⟨t, hnumber, .inl ⟨isNumber, rfl⟩⟩
  | @text t isText =>
      use false, s, reads_quantitySign_none htakes (.inr isText)
      exact reads_quantity.mpr ⟨t, htakes, .inr ⟨isText, rfl, rfl⟩⟩

/-- Sign and quantity are read by the rule; what `PassedOver` allows is passed over before it. -/
theorem reads_signedQuantity :
  (∃ minus r, quantitySign.Reads s minus r ∧ (quantity minus).Reads r value m) ↔
    ∃ passed used, PassedOver passed used ∧ QuantityRule value used ∧ s.Takes (passed ++ used) m
  := by
  constructor
  · rintro ⟨minus, r, hsign, hquantity⟩
    apply quantityRule_of_reads hsign hquantity
  · rintro ⟨passed, used, hpassed, hquantity, htakes⟩
    cases hpassed with
    | nothing => apply reads_quantityRule hquantity htakes
    | plus isPlus isText =>
        obtain ⟨r, hsign, hused⟩ := Tape.takes_cons.mp htakes
        use false, r, reads_quantitySign.mpr (.inl ⟨_, isPlus, hsign⟩)
        cases hquantity with
        | number isNumber => simp [isText, isQuantity] at isNumber
        | plus isPlus => simp [isText] at isPlus
        | minus isMinus => simp [isText] at isMinus
        | text => exact reads_quantity.mpr ⟨_, hused, .inr ⟨isText, rfl, rfl⟩⟩

theorem QuantityRule.ne_nil (h : QuantityRule value used) :
  used ≠ []
  := by
  cases h <;> simp

/-- Only the first token matters for what is passed over. -/
theorem passedOver_append {passed : List Token} (hused : used ≠ []) :
  PassedOver passed (used ++ rest) ↔ PassedOver passed used
  := by
  obtain ⟨t, used, rfl⟩ := List.exists_cons_of_ne_nil hused
  constructor
  · rintro (_ | ⟨isPlus, isText⟩)
    · exact .nothing
    · exact .plus isPlus isText
  · rintro (_ | ⟨isPlus, isText⟩)
    · exact .nothing
    · exact .plus isPlus isText

/-- A field is read by its rule; what `PassedOver` allows is passed over before it. -/
theorem reads_intervalField (hstop : s.stop = .ok p) :
  intervalField.Reads s f m ↔ ∃ passed used, PassedOver passed used ∧
    FieldRule f used m.tokens ∧ s.Takes (passed ++ used) m
  := by
  constructor
  · intro h
    simp only [intervalField, reads_bind, reads_pure] at h
    obtain ⟨minus, r₁, hminus, value, r₂, hvalue, first, r₃, hfirst, o, r₄, hlast, rfl, rfl⟩ := h
    obtain ⟨passed, used, hpassed, hquantity, hused⟩ :=
      reads_signedQuantity.mp ⟨minus, r₁, hminus, hvalue⟩
    obtain ⟨unit, isUnit, rfl, hunit⟩ := reads_unit.mp hfirst
    have hstop₃ : r₃.stop = .ok p := by
      rw [hunit.stop_eq, hused.stop_eq, hstop]
    use passed
    rcases (reads_toUnit? hstop₃).mp hlast with
      ⟨link, last, isTo, isLast, rfl, hrange⟩ | ⟨hends, rfl, rfl⟩
    · use used ++ [unit, link, last]
      refine ⟨?_, .range hquantity isUnit isTo isLast, ?_⟩
      · exact (passedOver_append hquantity.ne_nil).mpr hpassed
      · rw [← List.append_assoc]
        exact hused.trans (hunit.trans hrange)
    · use used ++ [unit]
      refine ⟨?_, .single hquantity isUnit hends, ?_⟩
      · exact (passedOver_append hquantity.ne_nil).mpr hpassed
      · rw [← List.append_assoc]
        exact hused.trans hunit
  · rintro ⟨passed, used, hpassed, hfield, htakes⟩
    simp only [intervalField, reads_bind, reads_pure]
    cases hfield with
    | @single value used _ unit quantity isUnit ends =>
        rw [← List.append_assoc] at htakes
        obtain ⟨r, hused, hunit⟩ := Tape.takes_append.mp htakes
        have hpassed := (passedOver_append quantity.ne_nil).mp hpassed
        obtain ⟨minus, r₁, hminus, hvalue⟩ :=
          reads_signedQuantity.mpr ⟨passed, used, hpassed, quantity, hused⟩
        have hstop' : m.stop = .ok p := by
          rw [htakes.stop_eq, hstop]
        exact ⟨minus, r₁, hminus, value, r, hvalue, _, m, reads_unit.mpr ⟨unit, isUnit, rfl, hunit⟩,
          none, m, reads_toUnit?_single hstop' ends, rfl, rfl⟩
    | @range value used _ unit link last quantity isUnit isTo isLast =>
        rw [← List.append_assoc] at htakes
        obtain ⟨r, hused, hothers⟩ := Tape.takes_append.mp htakes
        obtain ⟨r', hunit, hrange⟩ := Tape.takes_cons.mp hothers
        have hpassed := (passedOver_append quantity.ne_nil).mp hpassed
        obtain ⟨minus, r₁, hminus, hvalue⟩ :=
          reads_signedQuantity.mpr ⟨passed, used, hpassed, quantity, hused⟩
        exact ⟨minus, r₁, hminus, value, r, hvalue, _, r', reads_unit.mpr ⟨unit, isUnit, rfl, hunit⟩,
          _, m, reads_toUnit?_range isTo isLast hrange, rfl, rfl⟩

/-! ### Quantities among tokens -/

/-- A token that is neither a number nor a text is no quantity. -/
theorem quotedQuantities_cons_of_ne {t : Token} (hnumber : isQuantity t.kind = false)
    (htext : t.kind ≠ .string) :
  quotedQuantities (t :: ts) = quotedQuantities ts
  := by
  simp [quotedQuantities, hnumber, htext]

theorem quotedQuantities_cons_of_isName {t : Token} (ht : t.kind.isName) :
  quotedQuantities (t :: ts) = quotedQuantities ts
  := by
  apply quotedQuantities_cons_of_ne
  · rw [Bool.eq_false_iff]
    intro hnumber
    rcases isQuantity_iff.mp hnumber with h | h <;> rw [h] at ht <;> contradiction
  · intro htext
    rw [htext] at ht
    contradiction

theorem quotedQuantities_of_number {t : Token} (ht : isQuantity t.kind) :
  quotedQuantities (t :: ts) = false :: quotedQuantities ts
  := by
  rcases isQuantity_iff.mp ht with h | h <;> simp [quotedQuantities, h, isQuantity]

theorem quotedQuantities_of_text {t : Token} (ht : t.kind = .string) :
  quotedQuantities (t :: ts) = true :: quotedQuantities ts
  := by
  simp [quotedQuantities, ht]

/-- A sign is no quantity. -/
theorem quotedQuantities_of_quantitySign {minus : Bool} (h : quantitySign.Reads s minus m) :
  quotedQuantities s.tokens = quotedQuantities m.tokens
  := by
  rcases reads_quantitySign.mp h with ⟨t, hkind, htakes⟩ | ⟨-, rfl, -⟩
  · rw [htakes.tokens_eq]
    apply quotedQuantities_cons_of_ne <;> rw [hkind] <;> cases minus <;> decide
  · rfl

/-- A range of units has no quantity. -/
theorem quotedQuantities_of_toUnit? {o : Option String} (h : toUnit?.Reads s o m) :
  quotedQuantities s.tokens = quotedQuantities m.tokens
  := by
  simp only [toUnit?, reads_bind, reads_peek] at h
  obtain ⟨t, r, ⟨ht, rfl⟩, h⟩ := h
  split at h
  · next hkind =>
      simp only [reads_bind, reads_peekAt] at h
      obtain ⟨u, r, ⟨hu, rfl⟩, h⟩ := h
      split at h
      · simp only [reads_bind, reads_map] at h
        obtain ⟨_, r, hadvance, value, hvalue, rfl⟩ := h
        obtain ⟨rfl, hlink⟩ := takes_of_advance ht (by simp [hkind]) hadvance
        obtain ⟨last, hlast, -, htakes⟩ := reads_unit.mp hvalue
        rw [hlink.tokens_eq, htakes.tokens_eq]
        apply (quotedQuantities_cons_of_ne (by simp [hkind, isQuantity]) (by simp [hkind])).trans
        exact quotedQuantities_cons_of_isName hlast
      · obtain ⟨rfl, rfl⟩ := reads_pure.mp h
        rfl
  · obtain ⟨rfl, rfl⟩ := reads_pure.mp h
    rfl

/-- A field has one quantity. -/
theorem exists_quotedQuantities_of_intervalField (h : intervalField.Reads s f m) :
  ∃ quoted, quotedQuantities s.tokens = quoted :: quotedQuantities m.tokens
  := by
  simp only [intervalField, reads_bind, reads_pure] at h
  obtain ⟨minus, r₁, hminus, value, r₂, hvalue, first, r₃, hfirst, last, r₄, hlast, -, rfl⟩ := h
  obtain ⟨t, htakes, ht⟩ := reads_quantity.mp hvalue
  obtain ⟨unit, isUnit, -, hunit⟩ := reads_unit.mp hfirst
  have hbehind : quotedQuantities r₂.tokens = quotedQuantities m.tokens := by
    rw [hunit.tokens_eq, ← quotedQuantities_of_toUnit? hlast]
    exact quotedQuantities_cons_of_isName isUnit
  rw [quotedQuantities_of_quantitySign hminus, htakes.tokens_eq, ← hbehind]
  rcases ht with ⟨hnumber, -⟩ | ⟨htext, -⟩
  · exact ⟨false, quotedQuantities_of_number hnumber⟩
  · exact ⟨true, quotedQuantities_of_text htext⟩

/-! ### Several fields -/

theorem FieldRule.ne_nil (h : FieldRule f used rest) :
  used ≠ []
  := by
  cases h <;> simp

/-- Where the tokens of a field are, a field is ahead. -/
theorem FieldRule.fieldAhead (h : FieldRule f used rest) (more : List Token) :
  FieldAhead (used ++ more)
  := by
  cases h with
  | single quantity isUnit =>
      rw [List.append_assoc]
      exact .intro quantity isUnit
  | range quantity isUnit =>
      rw [List.append_assoc]
      exact .intro quantity isUnit

theorem FieldsRule.fieldAhead (h : FieldsRule fs used rest) :
  FieldAhead (used ++ rest)
  := by
  cases h with
  | last field => exact field.fieldAhead rest
  | cons field =>
      rw [List.append_assoc]
      exact field.fieldAhead _

/-- Where a field is ahead nothing is passed over. -/
theorem PassedOver.eq_nil {passed : List Token} (h : PassedOver passed ts)
    (hahead : FieldAhead (passed ++ ts)) :
  passed = []
  := by
  cases h with
  | nothing => rfl
  | plus isPlus isText =>
      simp [fieldAhead_iff, isPlus, isText, isQuantity] at hahead

/-- Every field takes tokens. -/
theorem FieldsRule.length_le (h : FieldsRule fs used rest) :
  fs.length ≤ used.length
  := by
  induction h with
  | last field => exact List.length_pos_iff.mpr field.ne_nil
  | cons field further ih =>
      have hfield := List.length_pos_iff.mpr field.ne_nil
      rw [List.length_cons, List.length_append]
      omega

/-- A field, if one is ahead. -/
def nextField? : Production (Option IntervalField) := do
  if ← intervalFieldFollows then some <$> intervalField else return none

theorem intervalField_of_nextField? (h : nextField?.Reads s (some f) m) :
  intervalField.Reads s f m
  := by
  obtain ⟨b, r, hfollows, h⟩ := reads_bind.mp h
  obtain rfl := intervalFieldFollows_reads hfollows
  cases b with
  | false => simp at h
  | true =>
      obtain ⟨f', hf, hsome⟩ := reads_map.mp h
      obtain rfl := Option.some.inj hsome
      exact hf

/-- Where no field is ahead, none is read. -/
theorem reads_nextField?_none (hstop : s.stop = .ok p) :
  nextField?.Reads s none m ↔ ¬ FieldAhead s.tokens ∧ m = s
  := by
  simp only [nextField?, reads_bind, reads_intervalFieldFollows hstop]
  constructor
  · rintro ⟨b, _, ⟨hb, rfl⟩, h⟩
    cases b with
    | true => simp at h
    | false => exact ⟨by simpa using hb, (reads_pure.mp h).2⟩
  · rintro ⟨hahead, rfl⟩
    exact ⟨false, m, ⟨by simpa using hahead, rfl⟩, reads_done_self none m⟩

/-- Where a field is ahead, it is read by its rule. -/
theorem reads_nextField?_some (hstop : s.stop = .ok p) :
  nextField?.Reads s (some f) m ↔ ∃ used, FieldRule f used m.tokens ∧ s.Takes used m
  := by
  simp only [nextField?, reads_bind, reads_intervalFieldFollows hstop]
  constructor
  · rintro ⟨b, _, ⟨hb, rfl⟩, h⟩
    cases b with
    | false => simp at h
    | true =>
        obtain ⟨f', hf, hsome⟩ := reads_map.mp h
        obtain rfl := Option.some.inj hsome
        obtain ⟨passed, used, hpassed, hfield, htakes⟩ := (reads_intervalField hstop).mp hf
        have hahead : FieldAhead (passed ++ (used ++ m.tokens)) := by
          rw [← List.append_assoc, ← htakes.tokens_eq]
          exact hb.mp rfl
        have hpassed : PassedOver passed (used ++ m.tokens) :=
          (passedOver_append hfield.ne_nil).mpr hpassed
        obtain rfl := hpassed.eq_nil hahead
        exact ⟨used, hfield, htakes⟩
  · rintro ⟨used, hfield, htakes⟩
    have hahead : FieldAhead s.tokens := by
      rw [htakes.tokens_eq]
      exact hfield.fieldAhead _
    have hreads := (reads_intervalField hstop).mpr ⟨[], used, .nothing, hfield, htakes⟩
    exact ⟨true, s, ⟨by simpa using hahead, rfl⟩, hreads.map some⟩

/-- Fields are read as long as one is ahead. -/
theorem readsEach_nextField? (hstop : s.stop = .ok p) :
  ReadsEach nextField? s fs m ↔
    fs = [] ∧ m = s ∧ ¬ FieldAhead s.tokens ∨ ∃ used, FieldsRule fs used m.tokens ∧ s.Takes used m
  := by
  constructor
  · intro h
    induction h with
    | nil stops =>
        left
        obtain ⟨hahead, rfl⟩ := (reads_nextField?_none hstop).mp stops
        exact ⟨rfl, rfl, hahead⟩
    | cons first others ih =>
        right
        obtain ⟨used, hfield, htakes⟩ := (reads_nextField?_some hstop).mp first
        rcases ih (htakes.stop_eq.trans hstop) with ⟨rfl, rfl, hends⟩ | ⟨used', hfields, htakes'⟩
        · exact ⟨used, .last hfield hends, htakes⟩
        · rw [htakes'.tokens_eq] at hfield
          exact ⟨used ++ used', .cons hfield hfields, htakes.trans htakes'⟩
  · rintro (⟨rfl, rfl, hends⟩ | ⟨used, hfields, htakes⟩)
    · exact .nil ((reads_nextField?_none hstop).mpr ⟨hends, rfl⟩)
    · generalize hrest : m.tokens = rest at hfields
      induction hfields generalizing s with
      | last hfield hends =>
          subst hrest
          apply ReadsEach.cons ((reads_nextField?_some hstop).mpr ⟨_, hfield, htakes⟩)
          apply ReadsEach.nil
          exact (reads_nextField?_none (htakes.stop_eq.trans hstop)).mpr ⟨hends, rfl⟩
      | cons hfield further ih =>
          subst hrest
          obtain ⟨r, hused, hothers⟩ := Tape.takes_append.mp htakes
          rw [← hothers.tokens_eq] at hfield
          apply ReadsEach.cons ((reads_nextField?_some hstop).mpr ⟨_, hfield, hused⟩)
          exact ih (hused.stop_eq.trans hstop) hothers rfl

theorem reads_intervalFields_of {n : Nat} {r : Tape} (hfirst : intervalField.Reads s f r)
    (hn : fs.length < n) (hfurther : ReadsEach nextField? r fs m) :
  (intervalFields n).Reads s (f :: fs) m
  := by
  apply hfirst.bind
  apply Reads.bind (reads_collect.mpr ⟨fs, hn, rfl, hfurther⟩)
  apply reads_done_self

/-- The fields of an interval are read by their rule. -/
theorem reads_intervalFields (hstop : s.stop = .ok p) {n : Nat} (hn : s.tokens.length < n) :
  (intervalFields n).Reads s fs m ↔ ∃ passed used, PassedOver passed used ∧
    FieldsRule fs used m.tokens ∧ s.Takes (passed ++ used) m
  := by
  constructor
  · intro h
    simp only [intervalFields, reads_bind, reads_pure] at h
    obtain ⟨f, r, hf, _, r', hcollect, rfl, rfl⟩ := h
    obtain ⟨further, -, rfl, heach⟩ := reads_collect.mp hcollect
    obtain ⟨passed, used, hpassed, hfield, htakes⟩ := (reads_intervalField hstop).mp hf
    use passed
    rcases (readsEach_nextField? (htakes.stop_eq.trans hstop)).mp heach with
      ⟨rfl, rfl, hends⟩ | ⟨used', hfurther, htakes'⟩
    · exact ⟨used, hpassed, .last hfield hends, htakes⟩
    · rw [htakes'.tokens_eq] at hfield
      refine ⟨used ++ used', ?_, .cons hfield hfurther, ?_⟩
      · exact (passedOver_append hfield.ne_nil).mpr hpassed
      · rw [← List.append_assoc]
        exact htakes.trans htakes'
  · rintro ⟨passed, used, hpassed, hrule, htakes⟩
    have hlength := hrule.length_le
    have htokens := congrArg List.length htakes.tokens_eq
    rw [List.length_append, List.length_append] at htokens
    cases hrule with
    | last hfield hends =>
        apply reads_intervalFields_of (r := m)
        · exact (reads_intervalField hstop).mpr ⟨passed, used, hpassed, hfield, htakes⟩
        · exact Nat.zero_lt_of_lt hn
        · apply (readsEach_nextField? (htakes.stop_eq.trans hstop)).mpr
          left
          exact ⟨rfl, rfl, hends⟩
    | @cons f further used others _ hfield hfurther =>
        rw [← List.append_assoc] at htakes
        obtain ⟨r, hused, hothers⟩ := Tape.takes_append.mp htakes
        rw [← hothers.tokens_eq] at hfield
        have hpassed := (passedOver_append hfield.ne_nil).mp hpassed
        rw [List.length_cons] at hlength
        apply reads_intervalFields_of (r := r)
        · exact (reads_intervalField hstop).mpr ⟨passed, used, hpassed, hfield, hused⟩
        · omega
        · apply (readsEach_nextField? (hused.stop_eq.trans hstop)).mpr
          right
          exact ⟨others, hfurther, hothers⟩

/-! ### Constants -/

variable {t : Token} {r : Tape} {n : Nat}

/-- Behind `INTERVAL` a literal is an interval. -/
theorem reads_literal_interval (ht : t.kind = .keyword .INTERVAL) (hs : s.Takes [t] r)
    {value : Literal} :
  (literal n).Reads s value m ↔ ∃ fields, (intervalFields n).Reads r fields m ∧
    value = .interval fields
  := by
  constructor
  · intro h
    have h := Reads.of_bind h (reads_peek.mpr ⟨hs.peek_zero, rfl⟩)
    rw [ht] at h
    have h := Reads.of_bind h (reads_advance hs)
    simp only [reads_bind, reads_pure] at h
    obtain ⟨fields, r', hfields, rfl, rfl⟩ := h
    exact ⟨fields, hfields, rfl⟩
  · rintro ⟨fields, hfields, rfl⟩
    apply Reads.bind (reads_peek.mpr ⟨hs.peek_zero, rfl⟩)
    rw [ht]
    apply (reads_advance hs).bind
    apply hfields.bind
    apply reads_done_self

/-- A constant that begins with `INTERVAL` is an interval and extends over its tokens. -/
theorem reads_constant_interval (hstop : s.stop = .ok p) (ht : t.kind = .keyword .INTERVAL)
    (hs : s.Takes [t] r) (hn : s.tokens.length < n) {c : Constant} :
  (constant n).Reads s c m ↔ ∃ fields passed used, PassedOver passed used ∧
    FieldsRule fields used m.tokens ∧ r.Takes (passed ++ used) m ∧
    c = ⟨.interval fields, .over (t :: (passed ++ used))⟩
  := by
  have hstop' : r.stop = .ok p := hs.stop_eq.trans hstop
  have hn' : r.tokens.length < n := by
    rw [hs.tokens_eq, List.length_append] at hn
    omega
  have hstart : here.Reads s t.span.start s := reads_here.mpr ⟨⟨t, hs.peek_zero, rfl⟩, rfl⟩
  constructor
  · intro h
    have h := Reads.of_bind h hstart
    simp only [reads_bind, reads_spanFrom, reads_pure, reads_literal_interval ht hs] at h
    obtain ⟨_, r', ⟨fields, hfields, rfl⟩, _, _, ⟨rfl, rfl⟩, rfl, rfl⟩ := h
    obtain ⟨passed, used, hpassed, hrule, htakes⟩ := (reads_intervalFields hstop' hn').mp hfields
    refine ⟨fields, passed, used, hpassed, hrule, htakes, ?_⟩
    have htaken : s.Takes (t :: (passed ++ used)) m := hs.trans htakes
    rw [← htaken.over_eq]
  · rintro ⟨fields, passed, used, hpassed, hrule, htakes, rfl⟩
    have hfields := (reads_intervalFields hstop' hn').mpr ⟨passed, used, hpassed, hrule, htakes⟩
    apply hstart.bind
    apply Reads.bind ((reads_literal_interval ht hs).mpr ⟨fields, hfields, rfl⟩)
    apply Reads.bind (reads_spanFrom.mpr ⟨rfl, rfl⟩)
    have htaken : s.Takes (t :: (passed ++ used)) m := hs.trans htakes
    rw [← htaken.over_eq]
    apply reads_done_self

/-! ### Streams -/

/-- **Intervals.**  Where `INTERVAL` is next, a constant is read exactly if fields follow, unless the
fault behind the tokens is reported: the constant has these fields and extends over their tokens.  Of
the tokens behind `INTERVAL`, a plus sign before a text is passed over. -/
theorem run_constant_interval {s : Stream} {t : Token} {ts : List Token} {n : Nat}
    (hs : s.tape.tokens = t :: ts) (ht : t.kind = .keyword .INTERVAL) (hn : ts.length + 1 < n) :
  (∃ e, s.tape.stop = .error e ∧ ((constant n).run s).1 = .error e) ∨
    ∀ c rest, (∃ s', (constant n).run s = (.ok c, s') ∧ s'.tape.tokens = rest) ↔
      ∃ fields passed used, ts = passed ++ used ++ rest ∧ PassedOver passed used ∧
        FieldsRule fields used rest ∧ c = ⟨.interval fields, .over (t :: (passed ++ used))⟩
  := by
  have heval := (constant n).run_eq_eval s
  rcases fault_or_reads (constant n) s.tape with ⟨e, hstop, hfault⟩ | ⟨p, hreads⟩
  · left
    rw [← heval] at hfault
    exact ⟨e, hstop, hfault⟩
  · right
    intro c rest
    rw [exists_run_iff, hreads, hs]
    have htake : Tape.Takes ⟨t :: ts, .ok p, s.tape.last⟩ [t] ⟨ts, .ok p, t.span⟩ := ⟨rfl, rfl, rfl⟩
    simp only [reads_constant_interval (s := ⟨t :: ts, .ok p, s.tape.last⟩) rfl ht htake hn]
    constructor
    · rintro ⟨m, ⟨fields, passed, used, hpassed, hrule, htakes, rfl⟩, rfl⟩
      exact ⟨fields, passed, used, htakes.tokens_eq, hpassed, hrule, rfl⟩
    · rintro ⟨fields, passed, used, rfl, hpassed, hrule, rfl⟩
      refine ⟨⟨rest, .ok p, .lastOf t.span (passed ++ used)⟩, ?_, rfl⟩
      exact ⟨fields, passed, used, hpassed, hrule, ⟨rfl, rfl, rfl⟩, rfl⟩

/-- A sum goes on behind an interval. -/
theorem run_constant_interval_sum :
  ∃ s', (constant 7).run (.ofString "INTERVAL - 1 day + 2") =
      (.ok ⟨.interval [⟨"-1", "DAY", none⟩], ⟨⟨1, 0, 0⟩, ⟨1, 16, 16⟩⟩⟩, s') ∧
    s'.tape.tokens =
      [⟨.plus, "+", ⟨1, 17, 17⟩, ⟨1, 18, 18⟩⟩, ⟨.number .integer, "2", ⟨1, 19, 19⟩, ⟨1, 20, 20⟩⟩]
  := by
  obtain ⟨htokens, hstop⟩ :
      (Stream.ofString "INTERVAL - 1 day + 2").tape.tokens =
        [⟨.keyword .INTERVAL, "INTERVAL", ⟨1, 0, 0⟩, ⟨1, 8, 8⟩⟩,
          ⟨.minus, "-", ⟨1, 9, 9⟩, ⟨1, 10, 10⟩⟩,
          ⟨.number .integer, "1", ⟨1, 11, 11⟩, ⟨1, 12, 12⟩⟩,
          ⟨.identifier, "day", ⟨1, 13, 13⟩, ⟨1, 16, 16⟩⟩,
          ⟨.plus, "+", ⟨1, 17, 17⟩, ⟨1, 18, 18⟩⟩,
          ⟨.number .integer, "2", ⟨1, 19, 19⟩, ⟨1, 20, 20⟩⟩] ∧
      (Stream.ofString "INTERVAL - 1 day + 2").tape.stop = .ok ⟨1, 20, 20⟩ := by decide +kernel
  rcases run_constant_interval (n := 7) htokens rfl (by decide) with ⟨e, hfault, -⟩ | hreads
  · rw [hstop] at hfault
    contradiction
  · have hquantity : QuantityRule ("-" ++ "1") [⟨.minus, "-", ⟨1, 9, 9⟩, ⟨1, 10, 10⟩⟩,
        ⟨.number .integer, "1", ⟨1, 11, 11⟩, ⟨1, 12, 12⟩⟩] :=
      .minus (t := ⟨.number .integer, "1", ⟨1, 11, 11⟩, ⟨1, 12, 12⟩⟩) rfl rfl
    have hwritten : IntervalField.mk "-1" "DAY" none = ⟨"-" ++ "1", "day".toUpper, none⟩ := by
      decide +kernel
    apply (hreads _ _).mpr
    refine ⟨[⟨"-1", "DAY", none⟩], [], [_, _] ++ [_], rfl, .nothing, .last ?_ ?_, rfl⟩
    · rw [hwritten]
      apply @FieldRule.single _ _ _ ⟨.identifier, "day", ⟨1, 13, 13⟩, ⟨1, 16, 16⟩⟩ hquantity rfl
      rw [rangeAhead_iff]
      decide
    · rw [fieldAhead_iff]
      decide

/-- Between `INTERVAL` and a text a plus sign is passed over, though no field begins with both. -/
theorem run_constant_interval_plus :
  ((constant 5).run (.ofString "INTERVAL + '1' DAY")).1 =
      .ok ⟨.interval [⟨"1", "DAY", none⟩], ⟨⟨1, 0, 0⟩, ⟨1, 18, 18⟩⟩⟩ ∧
    ∃ t ts, (Stream.ofString "INTERVAL + '1' DAY").tape.tokens = t :: ts ∧
      t.kind = .keyword .INTERVAL ∧
      ∀ fields used rest, ts = used ++ rest → ¬ FieldsRule fields used rest
  := by
  obtain ⟨hrun, htokens⟩ :
      ((constant 5).run (.ofString "INTERVAL + '1' DAY")).1 =
        .ok ⟨.interval [⟨"1", "DAY", none⟩], ⟨⟨1, 0, 0⟩, ⟨1, 18, 18⟩⟩⟩ ∧
      (Stream.ofString "INTERVAL + '1' DAY").tape.tokens =
        [⟨.keyword .INTERVAL, "INTERVAL", ⟨1, 0, 0⟩, ⟨1, 8, 8⟩⟩,
          ⟨.plus, "+", ⟨1, 9, 9⟩, ⟨1, 10, 10⟩⟩,
          ⟨.string, "'1'", ⟨1, 11, 11⟩, ⟨1, 14, 14⟩⟩,
          ⟨.identifier, "DAY", ⟨1, 15, 15⟩, ⟨1, 18, 18⟩⟩] := by decide +kernel
  refine ⟨hrun, _, _, htokens, rfl, ?_⟩
  intro fields used rest hused hrule
  have hahead := hrule.fieldAhead
  rw [← hused, fieldAhead_iff] at hahead
  revert hahead
  decide

end Grammar

end SqlFront
