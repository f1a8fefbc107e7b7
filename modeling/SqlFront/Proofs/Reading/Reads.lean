import SqlFront.Proofs.Reading.Tape

/-!
# Successful readings

`s.Takes used s'` says that the tape `s'` is what is left of `s` when the tokens `used` have been
taken, and `p.Reads s a s'` that the production `p` yields `a` on the tape `s` and leaves `s'`.
Each building block of productions has one lemma that says exactly when it reads; sequences are
taken apart by `Production.reads_bind`, lists by `Production.reads_collect`.
-/

namespace SqlFront

/-! ### Taking tokens -/

/-- The region of the last of `ts`, or `a` if there is none. -/
def Span.lastOf (a : Span) (ts : List Token) : Span := ts.foldl (fun _ t => t.span) a

/-- The region from the first of some tokens to the last of them. -/
def Span.over : List Token → Span
  | [] => default
  | t :: ts => ⟨t.span.start, (lastOf t.span ts).stop⟩

@[simp]
theorem Span.lastOf_append (a : Span) (ts us : List Token) :
  lastOf a (ts ++ us) = lastOf (lastOf a ts) us
  := List.foldl_append

@[simp]
theorem Span.lastOf_cons (a : Span) (t : Token) (ts : List Token) :
  lastOf a (t :: ts) = lastOf t.span ts
  := rfl

@[simp]
theorem Span.lastOf_nil (a : Span) :
  lastOf a [] = a
  := rfl

@[simp]
theorem Span.over_singleton (t : Token) :
  Span.over [t] = t.span
  := rfl

/-- The region of tokens begins with the first ones and ends with the last ones. -/
theorem Span.over_append {ts us : List Token} (hts : ts ≠ []) (hus : us ≠ []) :
  Span.over (ts ++ us) = ⟨(Span.over ts).start, (Span.over us).stop⟩
  := by
  obtain ⟨t, ts, rfl⟩ := List.exists_cons_of_ne_nil hts
  obtain ⟨u, us, rfl⟩ := List.exists_cons_of_ne_nil hus
  simp [Span.over]

namespace Tape

/-- The tape `s'` is left of `s` when the tokens `used` have been taken. -/
structure Takes (s : Tape) (used : List Token) (s' : Tape) : Prop where
  tokens_eq : s.tokens = used ++ s'.tokens
  stop_eq : s'.stop = s.stop
  last_eq : s'.last = Span.lastOf s.last used

variable {s m s' : Tape} {t u : Token} {ts us : List Token}

@[simp]
theorem takes_nil :
  s.Takes [] s' ↔ s' = s
  := by
  constructor
  · intro h
    obtain ⟨tokens, stop, last⟩ := s
    obtain ⟨tokens', stop', last'⟩ := s'
    obtain ⟨htokens, hstop, hlast⟩ := h
    simp_all
  · rintro rfl
    exact ⟨rfl, rfl, rfl⟩

theorem Takes.refl (s : Tape) :
  s.Takes [] s
  := takes_nil.mpr rfl

theorem Takes.trans (h : s.Takes ts m) (h' : m.Takes us s') :
  s.Takes (ts ++ us) s'
  := by
  refine ⟨?_, ?_, ?_⟩
  · rw [h.tokens_eq, h'.tokens_eq, List.append_assoc]
  · rw [h'.stop_eq, h.stop_eq]
  · rw [h'.last_eq, h.last_eq, Span.lastOf_append]

/-- Taking tokens can be interrupted anywhere. -/
theorem takes_append :
  s.Takes (ts ++ us) s' ↔ ∃ m, s.Takes ts m ∧ m.Takes us s'
  := by
  constructor
  · intro h
    use ⟨us ++ s'.tokens, s.stop, Span.lastOf s.last ts⟩
    constructor
    · refine ⟨?_, rfl, rfl⟩
      rw [h.tokens_eq, List.append_assoc]
    · refine ⟨rfl, h.stop_eq, ?_⟩
      rw [h.last_eq, Span.lastOf_append]
  · rintro ⟨m, h, h'⟩
    apply h.trans h'

/-- Tokens are taken one after the other. -/
theorem takes_cons :
  s.Takes (t :: ts) s' ↔ ∃ m, s.Takes [t] m ∧ m.Takes ts s'
  := by
  rw [← List.singleton_append]
  apply takes_append

theorem Takes.suffix (h : s.Takes ts s') :
  s'.tokens <:+ s.tokens
  := ⟨ts, h.tokens_eq.symm⟩

theorem Takes.peek_add (h : s.Takes ts s') (k : Nat) :
  s.peek (ts.length + k) = s'.peek k
  := by
  rw [peek, peek, h.tokens_eq, h.stop_eq, List.getElem?_append_right (by omega)]
  simp

/-- The token that is taken first is the next one. -/
theorem Takes.peek_zero (h : s.Takes (t :: ts) s') :
  s.peek 0 = .ok t
  := by
  rw [peek, h.tokens_eq]
  rfl

/-- The token behind the next one comes next when that one has been taken. -/
theorem Takes.peek_one (h : s.Takes [t] m) :
  s.peek 1 = m.peek 0
  := h.peek_add 0

/-- The region that ends with the token taken last is that of the tokens taken. -/
theorem Takes.over_eq (h : s.Takes (t :: ts) s') :
  (⟨t.span.start, s'.last.stop⟩ : Span) = Span.over (t :: ts)
  := by
  rw [h.last_eq]
  rfl

/-- A tape on which a token other than `eof` comes next begins with it. -/
theorem next_of_peek (h : s.peek 0 = .ok t) (ht : t.kind ≠ .eof) :
  ∃ s', s.next = (.ok t, s') ∧ s.Takes [t] s'
  := by
  obtain ⟨tokens, stop, last⟩ := s
  cases tokens with
  | nil =>
      obtain ⟨-, p, -, rfl⟩ := (peek_eq_ok_iff.mp h).resolve_left (by simp)
      contradiction
  | cons u us =>
      simp only [peek, List.getElem?_cons_zero, Except.ok.injEq] at h
      subst h
      use ⟨us, stop, u.span⟩, rfl
      exact ⟨rfl, rfl, rfl⟩

/-- A token other than `eof` that is next is taken from the tape. -/
theorem takes_of_next (h : s.next = (.ok t, s')) (ht : t.kind ≠ .eof) :
  s.Takes [t] s'
  := by
  obtain ⟨tokens, stop, last⟩ := s
  cases tokens with
  | cons u us =>
      simp only [next, Prod.mk.injEq, Except.ok.injEq] at h
      obtain ⟨rfl, rfl⟩ := h
      exact ⟨rfl, rfl, rfl⟩
  | nil =>
      cases stop with
      | error e => simp [next] at h
      | ok p =>
          simp only [next, Prod.mk.injEq, Except.ok.injEq] at h
          obtain ⟨rfl, rfl⟩ := h
          contradiction

/-- Taking a token leaves the tokens behind it. -/
theorem Takes.eq_mk (h : s.Takes [t] s') :
  s' = ⟨s'.tokens, s.stop, t.span⟩
  := by
  obtain ⟨tokens, stop, last⟩ := s'
  obtain ⟨-, rfl, rfl⟩ := h
  rfl

theorem Takes.next_eq (h : s.Takes [t] s') :
  s.next = (.ok t, s')
  := by
  obtain ⟨tokens, stop, last⟩ := s
  obtain ⟨htokens, hstop, hlast⟩ := h
  obtain ⟨tokens', stop', last'⟩ := s'
  simp only at htokens hstop hlast
  subst htokens hstop hlast
  rfl

end Tape

/-! ### Productions -/

namespace Production

variable {α β : Type} {s m s' : Tape} {t u : Token} {k l : Kind}

/-- The production yields `a` on the tape `s` and leaves the tape `s'`. -/
def Reads (p : Production α) (s : Tape) (a : α) (s' : Tape) : Prop := p.eval s = (.ok a, s')

@[simp]
theorem reads_pure {a b : α} :
  (pure a : Production α).Reads s b s' ↔ b = a ∧ s' = s
  := by
  simp [Reads, pure, eval, eq_comm]

@[simp]
theorem reads_done {a b : α} :
  (done a).Reads s b s' ↔ b = a ∧ s' = s
  := reads_pure

theorem eval_bind (p : Production α) (f : α → Production β) (s : Tape) :
  (p >>= f).eval s =
    match p.eval s with
    | (.ok a, s) => (f a).eval s
    | (.error e, s) => (.error e, s)
  := by
  change (p.bind f).eval s = _
  induction p generalizing s with
  | done a => rfl
  | look k go ih =>
      simp only [bind, eval]
      cases s.peek k.distance with
      | error e => rfl
      | ok t => apply ih
  | take go ih =>
      simp only [bind, eval]
      rcases s.next with ⟨e | t, r⟩
      · rfl
      · apply ih
  | last go ih => apply ih
  | fail cause =>
      simp only [bind, eval]
      cases s.peek 0 <;> rfl
  | failLast cause => rfl

/-- A sequence reads what its parts read one after the other. -/
@[simp]
theorem reads_bind {p : Production α} {f : α → Production β} {b : β} :
  (p >>= f).Reads s b s' ↔ ∃ a m, p.Reads s a m ∧ (f a).Reads m b s'
  := by
  simp only [Reads, eval_bind]
  rcases hp : p.eval s with ⟨e | a, r⟩
  · simp
  · constructor
    · intro h
      exact ⟨a, r, rfl, h⟩
    · rintro ⟨_, _, ⟨⟩, h⟩
      apply h

@[simp]
theorem reads_map {p : Production α} {f : α → β} {b : β} :
  (f <$> p).Reads s b s' ↔ ∃ a, p.Reads s a s' ∧ b = f a
  := by
  change (p >>= fun a => pure (f a)).Reads s b s' ↔ _
  simp only [reads_bind, reads_pure]
  constructor
  · rintro ⟨a, m, h, rfl, rfl⟩
    exact ⟨a, h, rfl⟩
  · rintro ⟨a, h, rfl⟩
    exact ⟨a, s', h, rfl, rfl⟩

@[simp]
theorem reads_expected {wanted : String} {a : α} :
  ¬ (expected wanted : Production α).Reads s a s'
  := by
  simp only [Reads, expected, eval]
  cases s.peek 0 <;> simp

@[simp]
theorem reads_fail {cause : Token → Cause} {a : α} :
  ¬ (fail cause).Reads s a s'
  := by
  simp only [Reads, eval]
  cases s.peek 0 <;> simp

@[simp]
theorem reads_failLast {cause : Cause} {a : α} :
  ¬ (failLast cause).Reads s a s'
  := by
  simp [Reads, eval]

/-! ### Looking -/

theorem reads_look {k : Lookahead} {go : Token → Production α} {a : α} :
  (look k go).Reads s a s' ↔ ∃ t, s.peek k.distance = .ok t ∧ (go t).Reads s a s'
  := by
  simp only [Reads, eval]
  cases s.peek k.distance <;> simp

@[simp]
theorem reads_peek :
  peek.Reads s t s' ↔ s.peek 0 = .ok t ∧ s' = s
  := by
  simp only [peek, reads_look, reads_done, Lookahead.distance]
  constructor
  · rintro ⟨_, h, rfl, rfl⟩
    exact ⟨h, rfl⟩
  · rintro ⟨h, rfl⟩
    exact ⟨t, h, rfl, rfl⟩

@[simp]
theorem reads_peekAt {k : Lookahead} :
  (peekAt k).Reads s t s' ↔ s.peek k.distance = .ok t ∧ s' = s
  := by
  simp only [peekAt, reads_look, reads_done]
  constructor
  · rintro ⟨_, h, rfl, rfl⟩
    exact ⟨h, rfl⟩
  · rintro ⟨h, rfl⟩
    exact ⟨t, h, rfl, rfl⟩

@[simp]
theorem reads_here {p : Position} :
  here.Reads s p s' ↔ (∃ t, s.peek 0 = .ok t ∧ p = t.span.start) ∧ s' = s
  := by
  simp only [here, reads_look, reads_done, Lookahead.distance]
  constructor
  · rintro ⟨t, h, rfl, rfl⟩
    exact ⟨⟨t, h, rfl⟩, rfl⟩
  · rintro ⟨⟨t, h, rfl⟩, rfl⟩
    exact ⟨t, h, rfl, rfl⟩

@[simp]
theorem reads_spanFrom {start : Position} {a : Span} :
  (spanFrom start).Reads s a s' ↔ a = ⟨start, s.last.stop⟩ ∧ s' = s
  := reads_done

@[simp]
theorem reads_nextIs {b : Bool} :
  (nextIs k).Reads s b s' ↔ (∃ t, s.peek 0 = .ok t ∧ b = decide (t.kind = k)) ∧ s' = s
  := by
  simp only [nextIs, reads_look, reads_done, Lookahead.distance]
  constructor
  · rintro ⟨t, h, rfl, rfl⟩
    exact ⟨⟨t, h, rfl⟩, rfl⟩
  · rintro ⟨⟨t, h, rfl⟩, rfl⟩
    exact ⟨t, h, rfl, rfl⟩

/-- Two tokens are looked at one after the other. -/
theorem reads_nextAre {b : Bool} :
  (nextAre k l).Reads s b s' ↔ s' = s ∧ ∃ t, s.peek 0 = .ok t ∧
    if t.kind = k then ∃ u, s.peek 1 = .ok u ∧ b = decide (u.kind = l) else b = false
  := by
  simp only [nextAre, reads_look, Lookahead.distance]
  constructor
  · rintro ⟨t, ht, h⟩
    split at h
    · next hk =>
        simp only [reads_look, reads_done, Lookahead.distance] at h
        obtain ⟨u, hu, hb, rfl⟩ := h
        refine ⟨rfl, t, ht, ?_⟩
        rw [if_pos hk]
        exact ⟨u, hu, hb⟩
    · next hk =>
        obtain ⟨rfl, rfl⟩ := reads_done.mp h
        refine ⟨rfl, t, ht, ?_⟩
        rw [if_neg hk]
  · rintro ⟨rfl, t, ht, h⟩
    use t, ht
    split at h
    · next hk =>
        rw [if_pos hk]
        obtain ⟨u, hu, hb⟩ := h
        exact reads_look.mpr ⟨u, hu, reads_done.mpr ⟨hb, rfl⟩⟩
    · next hk =>
        rw [if_neg hk]
        exact reads_done.mpr ⟨h, rfl⟩

/-! ### Taking -/

theorem reads_advance (h : s.Takes [t] s') :
  advance.Reads s t s'
  := by
  simp [Reads, advance, eval, h.next_eq]

/-- Advancing over a token that has been looked at takes that token. -/
theorem takes_of_advance (hpeek : s.peek 0 = .ok t) (ht : t.kind ≠ .eof)
    (h : advance.Reads s u s') :
  u = t ∧ s.Takes [t] s'
  := by
  obtain ⟨r, hnext, htakes⟩ := Tape.next_of_peek hpeek ht
  simp only [Reads, advance, eval, hnext, Prod.mk.injEq, Except.ok.injEq] at h
  obtain ⟨rfl, rfl⟩ := h
  exact ⟨rfl, htakes⟩

/-- A token is taken exactly where it is the wanted one. -/
theorem reads_expect (hk : k ≠ .eof) :
  (expect k).Reads s t s' ↔ t.kind = k ∧ s.Takes [t] s'
  := by
  simp only [expect, reads_look, Lookahead.distance]
  constructor
  · rintro ⟨u, hu, h⟩
    split at h
    · next hkind =>
        obtain ⟨rfl, htakes⟩ := takes_of_advance hu (by rw [hkind]; apply hk) h
        exact ⟨hkind, htakes⟩
    · simp at h
  · rintro ⟨hkind, htakes⟩
    use t, htakes.peek_zero
    rw [if_pos hkind]
    apply reads_advance htakes

/-- Taking a token if it is the wanted one, and going on with whether it was. -/
theorem reads_accept_bind (hk : k ≠ .eof) {f : Bool → Production β} {b : β} :
  (accept k >>= f).Reads s b s' ↔
    (∃ t m, t.kind = k ∧ s.Takes [t] m ∧ (f true).Reads m b s') ∨
    (∃ t, s.peek 0 = .ok t ∧ t.kind ≠ k ∧ (f false).Reads s b s')
  := by
  simp only [reads_bind, accept, reads_look, Lookahead.distance]
  constructor
  · rintro ⟨a, m, ⟨t, ht, h⟩, hf⟩
    split at h
    · next hkind =>
        obtain ⟨r, hnext, htakes⟩ := Tape.next_of_peek ht (by rw [hkind]; apply hk)
        simp only [Reads, eval, hnext, Prod.mk.injEq, Except.ok.injEq] at h
        obtain ⟨rfl, rfl⟩ := h
        left
        exact ⟨t, r, hkind, htakes, hf⟩
    · next hkind =>
        obtain ⟨rfl, rfl⟩ := reads_done.mp h
        right
        exact ⟨t, ht, hkind, hf⟩
  · rintro (⟨t, m, hkind, htakes, hf⟩ | ⟨t, ht, hkind, hf⟩)
    · use true, m
      refine ⟨⟨t, htakes.peek_zero, ?_⟩, hf⟩
      rw [if_pos hkind]
      simp [Reads, eval, htakes.next_eq]
    · use false, s
      refine ⟨⟨t, ht, ?_⟩, hf⟩
      rw [if_neg hkind]
      exact reads_done.mpr ⟨rfl, rfl⟩

/-- Taking a token if it is the wanted one. -/
theorem reads_accept (hk : k ≠ .eof) {b : Bool} :
  (accept k).Reads s b s' ↔
    (b = true ∧ ∃ t, t.kind = k ∧ s.Takes [t] s') ∨
    (b = false ∧ s' = s ∧ ∃ t, s.peek 0 = .ok t ∧ t.kind ≠ k)
  := by
  constructor
  · intro h
    have hbind : (accept k >>= pure).Reads s b s' :=
      reads_bind.mpr ⟨b, s', h, reads_pure.mpr ⟨rfl, rfl⟩⟩
    rcases (reads_accept_bind hk).mp hbind with ⟨t, m, hkind, htakes, h⟩ | ⟨t, ht, hkind, h⟩
    · obtain ⟨rfl, rfl⟩ := reads_pure.mp h
      left
      exact ⟨rfl, t, hkind, htakes⟩
    · obtain ⟨rfl, rfl⟩ := reads_pure.mp h
      right
      exact ⟨rfl, rfl, t, ht, hkind⟩
  · intro h
    have hbind : (accept k >>= pure).Reads s b s' := by
      apply (reads_accept_bind hk).mpr
      rcases h with ⟨rfl, t, hkind, htakes⟩ | ⟨rfl, rfl, t, ht, hkind⟩
      · left
        exact ⟨t, s', hkind, htakes, reads_pure.mpr ⟨rfl, rfl⟩⟩
      · right
        exact ⟨t, ht, hkind, reads_pure.mpr ⟨rfl, rfl⟩⟩
    obtain ⟨a, m, h, hpure⟩ := reads_bind.mp hbind
    obtain ⟨rfl, rfl⟩ := reads_pure.mp hpure
    apply h

theorem reads_accept? (hk : k ≠ .eof) {o : Option Token} :
  (accept? k).Reads s o s' ↔
    (∃ t, o = some t ∧ t.kind = k ∧ s.Takes [t] s') ∨
    (o = none ∧ s' = s ∧ ∃ t, s.peek 0 = .ok t ∧ t.kind ≠ k)
  := by
  simp only [accept?, reads_look, Lookahead.distance]
  constructor
  · rintro ⟨t, ht, h⟩
    split at h
    · next hkind =>
        obtain ⟨r, hnext, htakes⟩ := Tape.next_of_peek ht (by rw [hkind]; apply hk)
        simp only [Reads, eval, hnext, Prod.mk.injEq, Except.ok.injEq] at h
        obtain ⟨rfl, rfl⟩ := h
        left
        exact ⟨t, rfl, hkind, htakes⟩
    · next hkind =>
        obtain ⟨rfl, rfl⟩ := reads_done.mp h
        right
        exact ⟨rfl, rfl, t, ht, hkind⟩
  · rintro (⟨t, rfl, hkind, htakes⟩ | ⟨rfl, rfl, t, ht, hkind⟩)
    · use t, htakes.peek_zero
      rw [if_pos hkind]
      simp [Reads, eval, htakes.next_eq]
    · use t, ht
      rw [if_neg hkind]
      exact reads_done.mpr ⟨rfl, rfl⟩

/-! ### Lists -/

/-- `entry` yields the items one after the other and then yields none. -/
inductive ReadsEach (entry : Production (Option α)) : Tape → List α → Tape → Prop where
  | nil {s s' : Tape} (stops : entry.Reads s none s') : ReadsEach entry s [] s'
  | cons {s m s' : Tape} {a : α} {as : List α} (first : entry.Reads s (some a) m)
      (others : ReadsEach entry m as s') : ReadsEach entry s (a :: as) s'

/-- A list is collected exactly if its entries are read and their number is below the bound. -/
theorem reads_collect {entry : Production (Option α)} {n : Nat} {found as : List α} :
  (collect entry n found).Reads s as s' ↔
    ∃ items, items.length < n ∧ as = found.reverse ++ items ∧ ReadsEach entry s items s'
  := by
  induction n generalizing s found with
  | zero => simp [collect]
  | succ n ih =>
      simp only [collect, reads_bind]
      constructor
      · rintro ⟨o, m, ho, h⟩
        cases o with
        | none =>
            obtain ⟨rfl, rfl⟩ := reads_pure.mp h
            exact ⟨[], by simp, by simp, .nil ho⟩
        | some a =>
            obtain ⟨items, hlength, has, heach⟩ := ih.mp h
            use a :: items
            refine ⟨?_, ?_, .cons ho heach⟩
            · simpa using hlength
            · simp [has]
      · rintro ⟨items, hlength, rfl, heach⟩
        cases heach with
        | nil stops =>
            use none, s', stops
            simp
        | @cons _ m _ a as first others =>
            use some a, m, first
            apply ih.mpr
            use as
            refine ⟨?_, ?_, others⟩
            · simpa using hlength
            · simp

end Production

end SqlFront
