import SqlFront.Proofs.Reading.Follows

/-!
# What productions ensure

A production ensures a property if all that it yields has it, wherever the tokens ahead have a
property of their own.  Sequences, lists and options ensure what follows from the properties of
their parts.
-/

namespace SqlFront

/-- What is looked at is one of the tokens ahead, or the end of the text. -/
theorem Tape.mem_tokens_of_peek {s : Tape} {k : Nat} {t : Token} (h : s.peek k = .ok t)
    (ht : t.kind ≠ .eof) :
  t ∈ s.tokens
  := by
  rcases peek_eq_ok_iff.mp h with hget | ⟨-, p, -, rfl⟩
  · apply List.mem_of_getElem? hget
  · contradiction

namespace Production

variable {α β : Type} {T : Token → Prop} {P : α → Prop} {Q : β → Prop} {p q : Production α}

/-- Whatever the production yields from tokens with the property `T` has the property `P`. -/
structure Ensures (T : Token → Prop) (p : Production α) (P : α → Prop) : Prop where
  of_reads : ∀ {s : Tape} {a : α} {s' : Tape}, (∀ t ∈ s.tokens, T t) → p.Reads s a s' → P a

theorem ensures_true (p : Production α) :
  p.Ensures T fun _ => True
  := ⟨fun _ _ => trivial⟩

theorem ensures_pure {a : α} (h : P a) :
  (pure a : Production α).Ensures T P
  := by
  constructor
  intro s b s' _ hreads
  obtain ⟨rfl, -⟩ := reads_pure.mp hreads
  apply h

theorem ensures_expected {wanted : String} :
  (expected wanted : Production α).Ensures T P
  := ⟨fun _ hreads => (reads_expected hreads).elim⟩

theorem Ensures.bind {f : α → Production β} (hp : p.Ensures T P)
    (hf : ∀ a, P a → (f a).Ensures T Q) :
  (p >>= f).Ensures T Q
  := by
  constructor
  intro s b s' hs hreads
  obtain ⟨a, m, ha, hb⟩ := reads_bind.mp hreads
  apply (hf a (hp.of_reads hs ha)).of_reads (fun t ht => hs t (ha.suffix.subset ht)) hb

/-- What comes last in a sequence ensures the property. -/
theorem ensures_bind {f : α → Production β} (hf : ∀ a, (f a).Ensures T Q) :
  (p >>= f).Ensures T Q
  := (ensures_true p).bind fun a _ => hf a

theorem Ensures.map {f : α → β} (hp : p.Ensures T P) (hf : ∀ a, P a → Q (f a)) :
  (f <$> p).Ensures T Q
  := by
  constructor
  intro s b s' hs hreads
  obtain ⟨a, ha, rfl⟩ := reads_map.mp hreads
  apply hf a (hp.of_reads hs ha)

theorem ensures_ite {c : Prop} [Decidable c] (hp : c → p.Ensures T P)
    (hq : ¬ c → q.Ensures T P) :
  (if c then p else q).Ensures T P
  := by
  split
  · next h => apply hp h
  · next h => apply hq h

/-! ### Lists and options -/

/-- An option that is read as `p` is has what `p` ensures. -/
theorem Ensures.some (h : p.Ensures T P) :
  (Option.some <$> p).Ensures T fun o => ∀ a ∈ o, P a
  := by
  apply h.map
  rintro a ha _ ⟨⟩
  apply ha

theorem ensures_none :
  (pure none : Production (Option α)).Ensures T fun o => ∀ a ∈ o, P a
  := ensures_pure (by simp)

/-- All entries of a list have what its entry ensures. -/
theorem Ensures.collect {entry : Production (Option α)}
    (h : entry.Ensures T fun o => ∀ a ∈ o, P a) (bound : Nat) :
  (Production.collect entry bound []).Ensures T fun as => ∀ a ∈ as, P a
  := by
  constructor
  intro s as s' hs hreads
  obtain ⟨items, -, rfl, heach⟩ := reads_collect.mp hreads
  clear hreads
  induction heach with
  | nil => simp
  | cons first others ih =>
      have hothers := ih fun t ht => hs t (first.suffix.subset ht)
      exact List.forall_mem_cons.mpr ⟨h.of_reads hs first _ rfl, hothers⟩

theorem Ensures.afterToken? {k : Kind} (h : p.Ensures T P) :
  (Production.afterToken? k p).Ensures T fun o => ∀ a ∈ o, P a
  := by
  apply ensures_bind
  intro b
  apply ensures_ite
  · intro _
    apply h.some
  · intro _
    apply ensures_none

/-- A list with commas between its entries has an entry, and all of them have what is ensured. -/
theorem Ensures.commaList (h : p.Ensures T P) (bound : Nat) :
  (Production.commaList bound p).Ensures T fun as => as ≠ [] ∧ ∀ a ∈ as, P a
  := by
  apply h.bind
  intro first hfirst
  have hentry := h.afterToken? (k := .comma)
  apply (hentry.collect bound).bind
  intro further hfurther
  apply ensures_pure
  exact ⟨List.cons_ne_nil first further, List.forall_mem_cons.mpr ⟨hfirst, hfurther⟩⟩

end Production

end SqlFront
