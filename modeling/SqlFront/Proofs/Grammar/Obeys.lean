import SqlFront.Proofs.Grammar.QueryRules

/-!
# Productions that obey rules

A production obeys a rule if whatever it yields is read, by the rule, from the tokens that it has
taken.  This file has the facts about sequences, options and lists, and shows that the productions
for names and constants obey their rules.
-/

namespace SqlFront

/-! ### Names are not the end -/

theorem Kind.ne_eof_of_isName {k : Kind} (h : k.isName) :
  k ≠ .eof
  := by
  rintro rfl
  contradiction

theorem Kind.ne_eof_of_isPlain {k : Kind} (h : k.isPlain) :
  k ≠ .eof
  := by
  rintro rfl
  contradiction

theorem Kind.isPlain_of_isName {k : Kind} (h : k.isName) :
  k.isPlain
  := by
  cases k <;> first | rfl | contradiction

theorem Token.kind_of_isWord {t : Token} {word : String} (h : t.isWord word) :
  t.kind = .identifier
  := by
  simp only [isWord, Bool.and_eq_true, decide_eq_true_eq] at h
  exact h.1

/-- The region from the next token to the token taken last is that of the tokens taken. -/
theorem Tape.Takes.region {s s' : Tape} {t : Token} {used : List Token}
    (h : s.Takes used s') (hused : used ≠ []) (ht : s.peek 0 = .ok t) :
  (⟨t.span.start, s'.last.stop⟩ : Span) = Span.over used
  := by
  obtain ⟨u, us, rfl⟩ := List.exists_cons_of_ne_nil hused
  rw [h.peek_zero, Except.ok.injEq] at ht
  subst ht
  apply h.over_eq

namespace Grammar

variable {α : Type} {k : Kind} {R : α → List Token → Prop} {u v : List Token} {a : α}
  {as : List α}

/-! ### Rules of sequences -/

theorem plain_nil :
  Plain []
  := by
  simp [Plain]

theorem plain_cons {t : Token} :
  Plain (t :: u) ↔ t.kind.isPlain ∧ Plain u
  := by
  simp [Plain]

theorem plain_append :
  Plain (u ++ v) ↔ Plain u ∧ Plain v
  := by
  simp only [Plain, List.mem_append]
  constructor
  · intro h
    exact ⟨fun t ht => h t (.inl ht), fun t ht => h t (.inr ht)⟩
  · rintro ⟨hu, hv⟩ t (ht | ht)
    · apply hu t ht
    · apply hv t ht

/-- An item and, each behind a separator, further ones. -/
theorem Separated.of_repeated (h : R a u) (hs : Repeated (After k R) as v) :
  Separated k R (a :: as) (u ++ v)
  := by
  induction hs generalizing a u with
  | nil =>
      rw [List.append_nil]
      apply Separated.one h
  | cons first others ih =>
      obtain ⟨hseparator, hitem⟩ := first
      apply Separated.more h hseparator
      apply ih hitem

theorem Separated.ne_nil (hR : ∀ a u, R a u → u ≠ []) (h : Separated k R as u) :
  u ≠ []
  := by
  cases h with
  | one only => apply hR _ _ only
  | more => simp

theorem IdentRule.ne_nil {i : Ident} (h : IdentRule i u) :
  u ≠ []
  := by
  cases h
  simp

theorem NameRule.ne_nil {name : QualifiedName} (h : NameRule name u) :
  u ≠ []
  := by
  cases h with
  | intro dotted => apply dotted.ne_nil fun _ _ => IdentRule.ne_nil

theorem ConstantRule.ne_nil {c : Constant} (h : ConstantRule c u) :
  u ≠ []
  := by
  cases h with
  | intro literal => apply literal.1

end Grammar

namespace Production

open Grammar

variable {α β : Type} {k : Kind} {p : Production α} {R : α → List Token → Prop}

/-- Whatever the production yields is read, by the rule, from the tokens that it has taken. -/
def Obeys (p : Production α) (R : α → List Token → Prop) : Prop :=
  ∀ ⦃s : Tape⦄ ⦃a : α⦄ ⦃s' : Tape⦄, p.Reads s a s' → ∃ used, s.Takes used s' ∧ R a used

/-! ### Lists and options -/

theorem collect_obeys {entry : Production (Option α)} (n : Nat)
    (h : entry.Obeys (Possible R)) :
  (collect entry n []).Obeys (Repeated R)
  := by
  intro s as s' hreads
  obtain ⟨items, -, rfl, heach⟩ := reads_collect.mp hreads
  clear hreads
  induction heach with
  | nil stops =>
      obtain ⟨used, hused, ⟨⟩⟩ := h stops
      exact ⟨[], hused, .nil⟩
  | cons first others ih =>
      obtain ⟨used, hused, hitem⟩ := h first
      obtain ⟨rest, hrest, hitems⟩ := ih
      cases hitem with
      | some hitem => exact ⟨used ++ rest, hused.trans hrest, .cons hitem hitems⟩

/-- An item that is read only behind a certain token. -/
theorem after_obeys (hk : k ≠ .eof) (h : p.Obeys R) :
  (do if ← accept k then some <$> p else return none : Production (Option α)).Obeys
    (Possible (After k R))
  := by
  intro s o s' hreads
  rcases (reads_accept_bind hk).mp hreads with ⟨t, m, ht, htakes, hp⟩ | ⟨t, -, -, hp⟩
  · obtain ⟨a, ha, rfl⟩ := reads_map.mp hp
    obtain ⟨used, hused, hR⟩ := h ha
    exact ⟨t :: used, htakes.trans hused, .some (.intro ht hR)⟩
  · obtain ⟨rfl, rfl⟩ := reads_pure.mp hp
    exact ⟨[], .refl _, .none⟩

theorem afterToken?_obeys (hk : k ≠ .eof) (h : p.Obeys R) :
  (afterToken? k p).Obeys (Possible (After k R))
  := after_obeys hk h

/-- A list that is read only behind a certain token. -/
theorem listed_obeys {q : Production (List α)} {R : List α → List Token → Prop} (hk : k ≠ .eof)
    (h : q.Obeys R) :
  (do if ← accept k then q else return [] : Production (List α)).Obeys (Listed (After k R))
  := by
  intro s as s' hreads
  rcases (reads_accept_bind hk).mp hreads with ⟨t, m, ht, htakes, hq⟩ | ⟨t, -, -, hq⟩
  · obtain ⟨used, hused, hR⟩ := h hq
    exact ⟨t :: used, htakes.trans hused, .some (.intro ht hR)⟩
  · obtain ⟨rfl, rfl⟩ := reads_pure.mp hq
    exact ⟨[], .refl _, .none⟩

/-- What is behind a token. -/
theorem behind_obeys (hk : k ≠ .eof) (h : p.Obeys R) :
  (do
    let _ ← expect k
    p : Production α).Obeys (After k R)
  := by
  intro s a s' hreads
  obtain ⟨t, m, ht, ha⟩ := reads_bind.mp hreads
  obtain ⟨hkind, htakes⟩ := (reads_expect hk).mp ht
  obtain ⟨used, hused, hR⟩ := h ha
  exact ⟨t :: used, htakes.trans hused, .intro hkind hR⟩

theorem commaList_obeys (n : Nat) (h : p.Obeys R) :
  (commaList n p).Obeys (Separated .comma R)
  := by
  intro s as s' hreads
  simp only [commaList, reads_bind, reads_pure] at hreads
  obtain ⟨a, m, hfirst, items, r, hfurther, rfl, rfl⟩ := hreads
  obtain ⟨u, hu, ha⟩ := h hfirst
  obtain ⟨v, hv, hitems⟩ := collect_obeys n (after_obeys (by decide) h) hfurther
  exact ⟨u ++ v, hu.trans hv, .of_repeated ha hitems⟩

/-- What is before a closing parenthesis. -/
theorem closed_obeys (h : p.Obeys R) :
  (do
    let a ← p
    let _ ← expect .rightParen
    return a : Production α).Obeys (Closed R)
  := by
  intro s a s' hreads
  simp only [reads_bind, reads_pure] at hreads
  obtain ⟨b, n, hb, t, r, hclose, rfl, rfl⟩ := hreads
  obtain ⟨hkind, htakes⟩ := (reads_expect (by decide)).mp hclose
  obtain ⟨used, hused, hR⟩ := h hb
  exact ⟨used ++ [t], hused.trans htakes, .intro hR hkind⟩

/-- What is between parentheses. -/
theorem enclosed_obeys (h : p.Obeys (Closed R)) :
  (do
    let _ ← expect .leftParen
    p : Production α).Obeys (Enclosed R)
  := behind_obeys (by decide) h

end Production

namespace Grammar

open Production

/-! ### Names -/

theorem reads_ident {s s' : Tape} {i : Ident} :
  ident.Reads s i s' ↔
    ∃ t : Token, t.kind.isName ∧ s.Takes [t] s' ∧ i = ⟨t.text, t.kind = .quotedIdentifier, t.span⟩
  := by
  simp only [ident, reads_bind, reads_peek]
  constructor
  · rintro ⟨t, m, ⟨ht, rfl⟩, h⟩
    split at h
    · next hname =>
        obtain ⟨u, r, hadvance, h⟩ := reads_bind.mp h
        obtain ⟨rfl, htakes⟩ := takes_of_advance ht (Kind.ne_eof_of_isName hname) hadvance
        obtain ⟨rfl, rfl⟩ := reads_pure.mp h
        exact ⟨u, hname, htakes, rfl⟩
    · simp at h
  · rintro ⟨t, hname, htakes, rfl⟩
    use t, s, ⟨htakes.peek_zero, rfl⟩
    rw [if_pos hname]
    apply reads_bind.mpr
    use t, s', reads_advance htakes
    simp

theorem ident_obeys :
  ident.Obeys IdentRule
  := by
  intro s i s' h
  obtain ⟨t, hname, htakes, rfl⟩ := reads_ident.mp h
  exact ⟨[t], htakes, .intro hname⟩

theorem dottedIdent_obeys :
  dottedIdent.Obeys (Possible (After .dot IdentRule))
  := by
  intro s o s' h
  simp only [dottedIdent, reads_bind, reads_peek] at h
  obtain ⟨t, m, ⟨ht, rfl⟩, h⟩ := h
  split at h
  · next hdot =>
      simp only [reads_bind, reads_peekAt] at h
      obtain ⟨u, m, ⟨hu, rfl⟩, h⟩ := h
      split at h
      · simp only [reads_bind, reads_map] at h
        obtain ⟨_, r, hadvance, i, hi, rfl⟩ := h
        obtain ⟨rfl, htakes⟩ := takes_of_advance ht (by simp [hdot]) hadvance
        obtain ⟨used, hused, hident⟩ := ident_obeys hi
        exact ⟨_, htakes.trans hused, .some (.intro hdot hident)⟩
      · obtain ⟨rfl, rfl⟩ := reads_pure.mp h
        exact ⟨[], .refl _, .none⟩
  · obtain ⟨rfl, rfl⟩ := reads_pure.mp h
    exact ⟨[], .refl _, .none⟩

theorem qualifiedName_obeys (bound : Nat) :
  (qualifiedName bound).Obeys NameRule
  := by
  intro s name s' h
  simp only [qualifiedName, reads_bind, reads_here, reads_spanFrom, reads_pure] at h
  obtain ⟨_, m, ⟨⟨t, ht, rfl⟩, rfl⟩, i, m₁, hi, further, m₂, hfurther, _, m₃, ⟨rfl, rfl⟩, rfl, rfl⟩ := h
  obtain ⟨u, hu, hident⟩ := ident_obeys hi
  obtain ⟨v, hv, hidents⟩ := collect_obeys bound dottedIdent_obeys hfurther
  have htakes := hu.trans hv
  have hdotted := Separated.of_repeated hident hidents
  use u ++ v, htakes
  rw [htakes.region (hdotted.ne_nil fun _ _ => IdentRule.ne_nil) ht]
  apply NameRule.intro hdotted

theorem identList_obeys (bound : Nat) :
  (identList bound).Obeys IdentsRule
  := enclosed_obeys (closed_obeys (commaList_obeys bound ident_obeys))

theorem columns_obeys (bound : Nat) :
  (columns bound).Obeys (Listed IdentsRule)
  := by
  intro s names s' hreads
  simp only [columns, reads_bind, reads_nextIs] at hreads
  obtain ⟨b, m, ⟨-, rfl⟩, h⟩ := hreads
  split at h
  · obtain ⟨used, hused, hidents⟩ := identList_obeys bound h
    exact ⟨used, hused, .some hidents⟩
  · obtain ⟨rfl, rfl⟩ := reads_pure.mp h
    exact ⟨[], .refl _, .none⟩

theorem label?_obeys :
  label?.Obeys (Possible LabelRule)
  := by
  intro s o s' hreads
  rcases (reads_accept_bind (by decide)).mp hreads with ⟨t, m, ht, htakes, h⟩ | ⟨t, ht, -, h⟩
  · obtain ⟨i, hi, rfl⟩ := reads_map.mp h
    obtain ⟨used, hused, hident⟩ := ident_obeys hi
    exact ⟨_, htakes.trans hused, .some (.marked (.intro ht hident))⟩
  · clear hreads
    simp only [Bool.false_eq_true, if_false, reads_bind, reads_peek] at h
    obtain ⟨u, m, ⟨-, rfl⟩, h⟩ := h
    split at h
    · obtain ⟨i, hi, rfl⟩ := reads_map.mp h
      obtain ⟨used, hused, hident⟩ := ident_obeys hi
      exact ⟨_, hused, .some (.bare hident)⟩
    · obtain ⟨rfl, rfl⟩ := reads_pure.mp h
      exact ⟨[], .refl _, .none⟩

/-! ### Constants -/

/-- Tokens that a production yields are plain. -/
abbrev PlainRule (_ : α) (used : List Token) : Prop := Plain used

theorem Repeated.plain {as : List α} {u : List Token} (hR : ∀ a v, R a v → Plain v)
    (h : Repeated R as u) :
  Plain u
  := by
  induction h with
  | nil => apply plain_nil
  | cons first others ih => exact plain_append.mpr ⟨hR _ _ first, ih⟩

theorem Repeated.ne_nil {as : List α} {u : List Token} (hR : ∀ a v, R a v → v ≠ [])
    (h : Repeated R as u) (has : as ≠ []) :
  u ≠ []
  := by
  cases h with
  | nil => contradiction
  | cons first others => simp [hR _ _ first]

/-- A token that may have been taken. -/
theorem accept_obeys (hk : k.isPlain) :
  (accept k).Obeys PlainRule
  := by
  intro s b s' h
  rcases (reads_accept (Kind.ne_eof_of_isPlain hk)).mp h with ⟨-, t, ht, htakes⟩ | ⟨-, rfl, -⟩
  · refine ⟨[t], htakes, plain_cons.mpr ⟨?_, plain_nil⟩⟩
    rw [ht]
    apply hk
  · exact ⟨[], .refl _, plain_nil⟩

/-- A plain token that is next is taken by advancing. -/
theorem takes_plain_of_advance {s s' : Tape} {t u : Token} (ht : s.peek 0 = .ok t)
    (hplain : t.kind.isPlain) (h : advance.Reads s u s') :
  u = t ∧ s.Takes [t] s' ∧ Plain [t]
  := by
  obtain ⟨rfl, htakes⟩ := takes_of_advance ht (Kind.ne_eof_of_isPlain hplain) h
  exact ⟨rfl, htakes, plain_cons.mpr ⟨hplain, plain_nil⟩⟩

theorem unit_obeys :
  unit.Obeys PlainRule
  := by
  intro s value s' h
  simp only [unit, reads_bind, reads_pure] at h
  obtain ⟨i, m, hi, rfl, rfl⟩ := h
  obtain ⟨t, hname, htakes, rfl⟩ := reads_ident.mp hi
  exact ⟨[t], htakes, plain_cons.mpr ⟨Kind.isPlain_of_isName hname, plain_nil⟩⟩

theorem toUnit?_obeys :
  toUnit?.Obeys PlainRule
  := by
  intro s o s' h
  simp only [toUnit?, reads_bind, reads_peek] at h
  obtain ⟨t, m, ⟨ht, rfl⟩, h⟩ := h
  split at h
  · next hkind =>
      simp only [reads_bind, reads_peekAt] at h
      obtain ⟨u, m, ⟨hu, rfl⟩, h⟩ := h
      split at h
      · simp only [reads_bind, reads_map] at h
        obtain ⟨_, r, hadvance, value, hvalue, rfl⟩ := h
        obtain ⟨rfl, htakes, hplain⟩ := takes_plain_of_advance ht (by rw [hkind]; rfl) hadvance
        obtain ⟨used, hused, hplain'⟩ := unit_obeys hvalue
        exact ⟨_, htakes.trans hused, plain_append.mpr ⟨hplain, hplain'⟩⟩
      · obtain ⟨rfl, rfl⟩ := reads_pure.mp h
        exact ⟨[], .refl _, plain_nil⟩
  · obtain ⟨rfl, rfl⟩ := reads_pure.mp h
    exact ⟨[], .refl _, plain_nil⟩

theorem isPlain_of_isQuantity {k : Kind} (h : isQuantity k) :
  k.isPlain
  := by
  cases k <;> first | rfl | contradiction

theorem quantitySign_obeys :
  quantitySign.Obeys PlainRule
  := by
  intro s b s' hreads
  obtain ⟨minus, m, hminus, h⟩ := reads_bind.mp hreads
  obtain ⟨u, hu, hplain⟩ := accept_obeys (by rfl) hminus
  cases minus with
  | true =>
      obtain ⟨rfl, rfl⟩ := reads_pure.mp h
      exact ⟨u, hu, hplain⟩
  | false =>
      simp only [Bool.false_eq_true, if_false, reads_bind, reads_pure] at h
      obtain ⟨plus, m', hplus, rfl, rfl⟩ := h
      obtain ⟨v, hv, hplain'⟩ := accept_obeys (by rfl) hplus
      exact ⟨_, hu.trans hv, plain_append.mpr ⟨hplain, hplain'⟩⟩

theorem quantity_obeys (minus : Bool) :
  (quantity minus).Obeys fun _ used => used ≠ [] ∧ Plain used
  := by
  intro s value s' hreads
  simp only [quantity, reads_bind, reads_peek] at hreads
  obtain ⟨t, m, ⟨ht, rfl⟩, h⟩ := hreads
  split at h
  · next hquantity =>
      simp only [reads_bind, reads_pure] at h
      obtain ⟨_, r, hadvance, rfl, rfl⟩ := h
      obtain ⟨rfl, htakes, hplain⟩ :=
        takes_plain_of_advance ht (isPlain_of_isQuantity hquantity) hadvance
      exact ⟨[_], htakes, by simp, hplain⟩
  · split at h
    · next hstring =>
        simp only [reads_bind, reads_pure] at h
        obtain ⟨_, r, hadvance, rfl, rfl⟩ := h
        obtain ⟨rfl, htakes, hplain⟩ :=
          takes_plain_of_advance ht (by rw [hstring.1]; rfl) hadvance
        exact ⟨[_], htakes, by simp, hplain⟩
    · simp at h

theorem intervalField_obeys :
  intervalField.Obeys fun _ used => used ≠ [] ∧ Plain used
  := by
  intro s field s' h
  simp only [intervalField, reads_bind, reads_pure] at h
  obtain ⟨minus, m₁, hminus, value, m₂, hvalue, first, m₃, hfirst, last, m₄, hlast, rfl, rfl⟩ := h
  obtain ⟨u, hu, hplain₁⟩ := quantitySign_obeys hminus
  obtain ⟨v, hv, hne, hplain₂⟩ := quantity_obeys minus hvalue
  obtain ⟨w, hw, hplain₃⟩ := unit_obeys hfirst
  obtain ⟨x, hx, hplain₄⟩ := toUnit?_obeys hlast
  refine ⟨_, (hu.trans hv).trans (hw.trans hx), by simp [hne], ?_⟩
  exact plain_append.mpr ⟨plain_append.mpr ⟨hplain₁, hplain₂⟩, plain_append.mpr ⟨hplain₃, hplain₄⟩⟩

/-- Whether a field follows is found out by looking. -/
theorem intervalFieldFollows_reads {s s' : Tape} {b : Bool}
    (h : intervalFieldFollows.Reads s b s') :
  s' = s
  := by
  simp only [intervalFieldFollows, reads_bind, reads_peek] at h
  obtain ⟨t, m, ⟨-, rfl⟩, h⟩ := h
  split at h
  · simp only [reads_bind, reads_peekAt] at h
    obtain ⟨u, m, ⟨-, rfl⟩, h⟩ := h
    split at h
    · simp only [reads_bind, reads_peekAt, reads_pure] at h
      obtain ⟨v, m, ⟨-, rfl⟩, -, rfl⟩ := h
      rfl
    · exact (reads_pure.mp h).2
  · split at h
    · simp only [reads_bind, reads_peekAt, reads_pure] at h
      obtain ⟨v, m, ⟨-, rfl⟩, -, rfl⟩ := h
      rfl
    · exact (reads_pure.mp h).2

theorem intervalFields_obeys (bound : Nat) :
  (intervalFields bound).Obeys fun _ used => used ≠ [] ∧ Plain used
  := by
  have hentry : (do if ← intervalFieldFollows then some <$> intervalField else return none :
      Production (Option IntervalField)).Obeys (Possible PlainRule) := by
    intro s o s' hreads
    obtain ⟨follows, m, hfollows, h⟩ := reads_bind.mp hreads
    have hm := intervalFieldFollows_reads hfollows
    subst hm
    split at h
    · obtain ⟨field, hfield, rfl⟩ := reads_map.mp h
      obtain ⟨u, hu, -, hplain⟩ := intervalField_obeys hfield
      exact ⟨u, hu, .some hplain⟩
    · obtain ⟨rfl, rfl⟩ := reads_pure.mp h
      exact ⟨[], .refl _, .none⟩
  intro s fields s' h
  simp only [intervalFields, reads_bind, reads_pure] at h
  obtain ⟨first, m, hfirst, further, m', hfurther, rfl, rfl⟩ := h
  obtain ⟨u, hu, hne, hplain⟩ := intervalField_obeys hfirst
  obtain ⟨v, hv, hfields⟩ := collect_obeys bound hentry hfurther
  refine ⟨u ++ v, hu.trans hv, by simp [hne], ?_⟩
  exact plain_append.mpr ⟨hplain, hfields.plain fun _ _ hv => hv⟩

/-- Adjacent texts: at least one, if one is next. -/
theorem text_obeys (bound : Nat) {s s' : Tape} {t : Token} {value : String}
    (ht : s.peek 0 = .ok t) (hkind : t.kind = .string) (h : (text bound).Reads s value s') :
  ∃ used, s.Takes used s' ∧ used ≠ [] ∧ Plain used
  := by
  have hentry : (accept? .string).Obeys
      (Possible fun (u : Token) used => used = [u] ∧ u.kind = .string) := by
    intro s o s' h
    rcases (reads_accept? (by decide)).mp h with ⟨u, rfl, hu, htakes⟩ | ⟨rfl, rfl, -⟩
    · exact ⟨[u], htakes, .some ⟨rfl, hu⟩⟩
    · exact ⟨[], .refl _, .none⟩
  simp only [text, reads_bind, reads_pure] at h
  obtain ⟨parts, m, hparts, rfl, rfl⟩ := h
  obtain ⟨used, hused, hstrings⟩ := collect_obeys bound hentry hparts
  have hparts' : parts ≠ [] := by
    obtain ⟨items, -, rfl, heach⟩ := reads_collect.mp hparts
    cases heach with
    | nil stops =>
        rcases (reads_accept? (by decide)).mp stops with ⟨_, ⟨⟩, -⟩ | ⟨-, -, u, hu, hne⟩
        rw [ht, Except.ok.injEq] at hu
        subst hu
        contradiction
    | cons first others => simp
  refine ⟨used, hused, hstrings.ne_nil ?_ hparts', hstrings.plain ?_⟩
  · rintro u v ⟨rfl, -⟩
    simp
  · rintro u v ⟨rfl, hu⟩
    rw [plain_cons, hu]
    exact ⟨rfl, plain_nil⟩

theorem literal_obeys (bound : Nat) :
  (literal bound).Obeys LiteralRule
  := by
  intro s value s' hreads
  simp only [literal, reads_bind, reads_peek] at hreads
  obtain ⟨t, m, ⟨ht, rfl⟩, h⟩ := hreads
  have hword : ∀ {value' : Literal}, t.kind.isPlain →
      (do let _ ← advance; return value' : Production Literal).Reads m value s' →
      ∃ used, m.Takes used s' ∧ LiteralRule value used := by
    intro value' hplain h
    simp only [reads_bind, reads_pure] at h
    obtain ⟨_, r, hadvance, rfl, rfl⟩ := h
    obtain ⟨rfl, htakes, hplain⟩ := takes_plain_of_advance ht hplain hadvance
    exact ⟨[_], htakes, by simp, hplain⟩
  split at h
  · next hkind => apply hword (by rw [hkind]; rfl) h
  · next hkind => apply hword (by rw [hkind]; rfl) h
  · next hkind => apply hword (by rw [hkind]; rfl) h
  · next hkind =>
      simp only [reads_bind, reads_pure] at h
      obtain ⟨_, r, hadvance, fields, r', hfields, rfl, rfl⟩ := h
      obtain ⟨rfl, htakes, hplain⟩ := takes_plain_of_advance ht (by rw [hkind]; rfl) hadvance
      obtain ⟨used, hused, hne, hplain'⟩ := intervalFields_obeys bound hfields
      exact ⟨_, htakes.trans hused, by simp, plain_append.mpr ⟨hplain, hplain'⟩⟩
  · next hkind =>
      simp only [reads_bind, reads_pure] at h
      obtain ⟨value, r, hvalue, rfl, rfl⟩ := h
      obtain ⟨used, hused, hne, hplain⟩ := text_obeys bound ht hkind hvalue
      exact ⟨used, hused, hne, hplain⟩
  · next hkind =>
      simp only [reads_bind, reads_peekAt] at h
      obtain ⟨u, m, ⟨hu, rfl⟩, h⟩ := h
      split at h
      · next form hform =>
          simp only [reads_bind, reads_pure] at h
          obtain ⟨_, r, hadvance, _, r', hadvance', rfl, rfl⟩ := h
          obtain ⟨rfl, htakes, hplain⟩ := takes_plain_of_advance ht (by rw [hkind]; rfl) hadvance
          rw [Lookahead.distance, ← Nat.add_zero 1, ← List.length_singleton,
            htakes.peek_add] at hu
          obtain ⟨rfl, htakes', hplain'⟩ :=
            takes_plain_of_advance hu (by rw [hform]; rfl) hadvance'
          exact ⟨_, htakes.trans htakes', by simp, plain_append.mpr ⟨hplain, hplain'⟩⟩
      · simp at h
  · next hkind =>
      simp only [reads_bind, reads_peekAt] at h
      obtain ⟨u, m, ⟨hu, rfl⟩, h⟩ := h
      split at h
      · simp only [typedText, reads_bind, reads_pure] at h
        obtain ⟨_, r, hadvance, v, r', hexpect, rfl, rfl⟩ := h
        obtain ⟨rfl, htakes, hplain⟩ := takes_plain_of_advance ht (by rw [hkind]; rfl) hadvance
        obtain ⟨hstring, htakes'⟩ := (reads_expect (by decide)).mp hexpect
        refine ⟨_, htakes.trans htakes', by simp, plain_append.mpr ⟨hplain, ?_⟩⟩
        rw [plain_cons, hstring]
        exact ⟨rfl, plain_nil⟩
      · simp at h
  · next hkind => apply hword (by rw [hkind]; rfl) h
  · simp at h

theorem constant_obeys (bound : Nat) :
  (constant bound).Obeys ConstantRule
  := by
  intro s c s' h
  simp only [constant, reads_bind, reads_here, reads_spanFrom, reads_pure] at h
  obtain ⟨_, m, ⟨⟨t, ht, rfl⟩, rfl⟩, value, m₁, hvalue, _, m₂, ⟨rfl, rfl⟩, rfl, rfl⟩ := h
  obtain ⟨used, hused, hliteral⟩ := literal_obeys bound hvalue
  use used, hused
  rw [hused.region hliteral.1 ht]
  apply ConstantRule.intro hliteral

theorem textConstant_obeys (bound : Nat) :
  (textConstant bound).Obeys ConstantRule
  := by
  intro s c s' hreads
  simp only [textConstant, reads_bind, reads_nextIs] at hreads
  obtain ⟨b, m, ⟨-, rfl⟩, h⟩ := hreads
  split at h
  · apply constant_obeys bound h
  · simp at h

end Grammar

end SqlFront
