import SqlFront.Proofs.Reading.Alike

/-!
# Where faults are, and where readings end

Two things are said of the productions of the grammar.  A production locates its faults if it fails
at the start of the next token, or because of the number that it has taken last, unless the text
itself has a fault there.  And what a production reads up to the end of a statement it reads as well
where the text is cut there: it decides at the semicolon what it decides at the end of the text.  A
production of which both is true is tidy.

As in `FollowsAt`, what has been looked at is part of what is said: the tapes are those on which
tokens of the kinds `ks` come next.
-/

namespace SqlFront

/-- Whether a statement ends in front of a token of this kind. -/
def Kind.ends (k : Kind) : Bool := k = .semicolon || k = .eof

/-- Whether a cause is about the next token. -/
def Cause.isAhead : Cause → Bool
  | expected _ _ | tooDeep | tooLong => true
  | _ => false

theorem Kind.ends_iff {k : Kind} :
  k.ends ↔ k = .semicolon ∨ k = .eof
  := by
  simp [ends]

theorem Kind.ne_eof_of_belongs {k : Kind} (h : k.belongs) :
  k ≠ .eof
  := by
  rintro rfl
  contradiction

theorem Kind.not_ends_of_belongs {k : Kind} (h : k.belongs) :
  ¬ k.ends
  := by
  rw [ends_iff]
  rintro (rfl | rfl) <;> contradiction

theorem Kind.ne_of_ends {k l : Kind} (h : k.ends) (hl : l.belongs) :
  k ≠ l
  := by
  rintro rfl
  exact not_ends_of_belongs hl h

theorem Cause.kind_of_isAhead {cause : Cause} (h : cause.isAhead) :
  cause.kind = .grammar
  := by
  cases cause <;> first | rfl | contradiction

/-! ### Tapes that are cut -/

namespace Tape

/-- The tape `r` is what stands on `s` up to the end of a statement; `tail` is what is cut off. -/
structure Cut (s r : Tape) (tail : List Token) : Prop where
  tokens_eq : s.tokens = r.tokens ++ tail
  last_eq : r.last = s.last
  stop_eq : ∃ p, r.stop = .ok p
  ends : ∃ t, s.peek r.tokens.length = .ok t ∧ t.kind.ends

variable {s r s' : Tape} {tail : List Token} {t : Token} {k : Kind} {ks : List Kind}

theorem Cut.peek_of_lt (h : s.Cut r tail) {j : Nat} (hj : j < r.tokens.length) :
  r.peek j = s.peek j
  := by
  simp only [peek, h.tokens_eq, List.getElem?_append_left hj, List.getElem?_eq_getElem hj]

/-- Behind the cut tape, the text ends. -/
theorem Cut.peek_end (h : s.Cut r tail) :
  ∃ u, r.peek r.tokens.length = .ok u ∧ u.kind = .eof
  := by
  obtain ⟨p, hp⟩ := h.stop_eq
  use .eof p
  simp [peek, hp, Except.map, Token.eof]

/-- The tokens that belong to statements stand in front of the end. -/
theorem Cut.length_le_of_seen (h : s.Cut r tail) (hseen : s.Seen ks) (hks : ∀ k ∈ ks, k.belongs) :
  ks.length ≤ r.tokens.length
  := by
  by_contra hlt
  obtain ⟨t, ht, hends⟩ := h.ends
  obtain ⟨u, hu, hkind⟩ := hseen _ _ (List.getElem?_eq_getElem (Nat.not_le.mp hlt))
  obtain rfl : t = u := by simpa [hu] using ht.symm
  apply Kind.not_ends_of_belongs _ hends
  rw [hkind]
  exact hks _ (List.getElem_mem _)

/-- A token that is taken from both tapes. -/
theorem Cut.of_takes {m n : Tape} (h : s.Cut r tail) (hs : s.Takes [t] m) (hr : r.Takes [t] n) :
  m.Cut n tail
  where
  tokens_eq := by
    have htokens := h.tokens_eq
    rw [hs.tokens_eq, hr.tokens_eq] at htokens
    simpa using htokens
  last_eq := by rw [hs.last_eq, hr.last_eq, Span.lastOf_cons, Span.lastOf_cons]
  stop_eq := by
    rw [hr.stop_eq]
    apply h.stop_eq
  ends := by
    obtain ⟨u, hu, hends⟩ := h.ends
    rw [hr.tokens_eq, List.length_append, hs.peek_add] at hu
    exact ⟨u, hu, hends⟩

/-- A token that is taken from a tape without reaching its tail is taken from the cut tape. -/
theorem Cut.exists_takes {m : Tape} (h : s.Cut r tail) (hs : s.Takes [t] m)
    (hlength : tail.length ≤ m.tokens.length) :
  ∃ n, r.Takes [t] n ∧ m.Cut n tail
  := by
  obtain ⟨tokens, stop, last⟩ := r
  have htokens := h.tokens_eq
  rw [hs.tokens_eq] at htokens
  cases tokens with
  | nil =>
      have heq := congrArg List.length htokens
      simp only [List.length_append, List.length_cons, List.length_nil] at heq
      omega
  | cons u us =>
      simp only [List.cons_append, List.nil_append, List.cons.injEq] at htokens
      obtain ⟨rfl, -⟩ := htokens
      have hr : (⟨t :: us, stop, last⟩ : Tape).Takes [t] ⟨us, stop, t.span⟩ := ⟨rfl, rfl, rfl⟩
      exact ⟨_, hr, h.of_takes hs hr⟩

end Tape

/-! ### The two properties -/

namespace Production

variable {α β : Type} {ks : List Kind} {p p' q : Production α} {g : α → Production β} {k l : Kind}
  {s s' m : Tape} {e : Fault}

/-- Where the fault is with which `p` ends on `s`, leaving `s'`: it concerns the next token, or it
concerns the number that was taken last, and then at most two tokens behind that one have been
looked at. -/
inductive Locates (p : Production α) (s : Tape) (e : Fault) (s' : Tape) : Prop where
  | ahead {t : Token} (cause : e.cause.isAhead) (peek : s'.peek 0 = .ok t)
      (span : e.span = .point t.span.start) : Locates p s e s'
  | behind (front : List Token) (t : Token) (tokens_eq : s.tokens = front ++ t :: s'.tokens)
      (kind : t.kind = .number .integer) (eq : e = ⟨.parameterOutOfRange t.text, t.span⟩)
      (alike : ∀ r, r.Proper → s.Alike (front.length + 2) r → (p.eval r).1 = .error e) :
      Locates p s e s'

/-- Where tokens of the kinds `ks` come next, the production locates its faults. -/
def LocatesAt (ks : List Kind) (p : Production α) : Prop :=
  ∀ s e s', s.Proper → s.Seen ks → p.eval s = (.error e, s') → s.stop = .error e ∨ Locates p s e s'

/-- Where tokens of the kinds `ks` come next, the production reads on a tape that is cut at the end of
a statement what it reads up to there. -/
def CutsAt (ks : List Kind) (p : Production α) : Prop :=
  ∀ s r tail a s', s.Cut r tail → s.Seen ks → p.Reads s a s' →
    tail.length ≤ s'.tokens.length → ∃ r', s'.Cut r' tail ∧ p.Reads r a r'

/-- Where tokens of the kinds `ks` come next, the production locates its faults, and reads the same
where the text is cut at the end of a statement. -/
structure TidyAt (ks : List Kind) (p : Production α) : Prop where
  locates : LocatesAt ks p
  cuts : CutsAt ks p

/-- The production locates its faults, and reads the same where the text is cut at the end of a
statement. -/
abbrev Tidy (p : Production α) : Prop := TidyAt [] p

/-- What `p` reads without taking a token `p'` reads. -/
def Idle (p p' : Production α) : Prop :=
  ∀ s a s', p.Reads s a s' → s.tokens.length ≤ s'.tokens.length → p'.Reads s a s'

theorem Consumes.idle (h : p.Consumes) :
  p.Idle p'
  := fun s a s' hreads hle => absurd (h s a s' hreads) (Nat.not_lt.mpr hle)

theorem LocatesAt.seen (h : LocatesAt [] p) (ks : List Kind) :
  LocatesAt ks p
  := fun s e s' hs _ => h s e s' hs s.seen_nil

theorem CutsAt.seen (h : CutsAt [] p) (ks : List Kind) :
  CutsAt ks p
  := fun s r tail a s' hcut _ => h s r tail a s' hcut s.seen_nil

theorem Tidy.seen (h : p.Tidy) (ks : List Kind) :
  TidyAt ks p
  := ⟨h.locates.seen ks, h.cuts.seen ks⟩

/-! ### Ends -/

theorem tidy_pure (a : α) :
  TidyAt ks (pure a)
  where
  locates s e s' _ _ h := by
    simp [pure, eval] at h
  cuts s r tail b s' hcut _ h _ := by
    obtain ⟨rfl, rfl⟩ := reads_pure.mp h
    exact ⟨r, hcut, reads_pure.mpr ⟨rfl, rfl⟩⟩

theorem tidy_fail {cause : Token → Cause} (h : ∀ t, (cause t).isAhead) :
  TidyAt (α := α) ks (fail cause)
  where
  locates s e s' _ _ heval := by
    simp only [eval] at heval
    cases ht : s.peek 0 with
    | error e' =>
        rw [ht] at heval
        obtain ⟨rfl, rfl⟩ : e' = e ∧ s = s' := by simpa using heval
        exact .inl (Tape.peek_eq_error_iff.mp ht).2
    | ok t =>
        rw [ht] at heval
        obtain ⟨rfl, rfl⟩ : ⟨cause t, .point t.span.start⟩ = e ∧ s = s' := by simpa using heval
        exact .inr (.ahead (h t) ht rfl)
  cuts s r tail a s' _ _ hreads := absurd hreads reads_fail

theorem tidy_expected (wanted : String) :
  TidyAt (α := α) ks (expected wanted)
  := tidy_fail fun _ => rfl

/-! ### Sequences and choices -/

/-- A production that goes on as another one locates the faults of that. -/
theorem Locates.of_eval (h : Locates q s e s')
    (heval : ∀ r, s.Alike 2 r → (p.eval r).1 = (q.eval r).1) :
  Locates p s e s'
  := by
  cases h with
  | ahead cause peek span => exact .ahead cause peek span
  | behind front t tokens_eq kind eq alike =>
      refine .behind front t tokens_eq kind eq ?_
      intro r hr halike
      rw [heval r (halike.mono (by omega))]
      apply alike r hr halike

theorem Locates.bind_left (h : Locates p s e s') (g : α → Production β) :
  Locates (p >>= g) s e s'
  := by
  cases h with
  | ahead cause peek span => exact .ahead cause peek span
  | behind front t tokens_eq kind eq alike =>
      refine .behind front t tokens_eq kind eq ?_
      intro r hr halike
      have herror := alike r hr halike
      rw [eval_bind]
      generalize p.eval r = answer at herror
      obtain ⟨_, r'⟩ := answer
      simp only at herror
      rw [herror]

theorem Locates.bind_right {a : α} (hs : s.Proper) (hreads : p.Reads s a m)
    (h : Locates (g a) m e s') :
  Locates (p >>= g) s e s'
  := by
  cases h with
  | ahead cause peek span => exact .ahead cause peek span
  | behind front t tokens_eq kind eq alike =>
      obtain ⟨used, hused⟩ := hreads.suffix
      refine .behind (used ++ front) t ?_ kind eq ?_
      · rw [← hused, tokens_eq, List.append_assoc]
      · intro r hr halike
        rw [List.length_append] at halike
        have hlength : s.tokens.length ≤ (p.eval s).2.tokens.length + used.length := by
          rw [hreads, ← hused, List.length_append]
          exact Nat.le_of_eq (Nat.add_comm _ _)
        obtain ⟨hvalue, hm⟩ := eval_alike p hs hr hlength halike
        have hproper := hr.of_suffix (tokens_eval_suffix p r)
        rw [eval_bind]
        rw [hreads] at hvalue hm
        generalize p.eval r = answer at hvalue hm hproper
        obtain ⟨_, r'⟩ := answer
        simp only at hvalue
        rw [hvalue]
        apply alike r' hproper hm

theorem LocatesAt.bind (hp : LocatesAt ks p) (hg : ∀ a, LocatesAt [] (g a)) :
  LocatesAt ks (p >>= g)
  := by
  intro s e s' hs hseen h
  rw [eval_bind] at h
  rcases hr : p.eval s with ⟨e' | a, m⟩
  · rw [hr] at h
    obtain ⟨rfl, rfl⟩ : e' = e ∧ m = s' := by simpa using h
    exact (hp s _ _ hs hseen hr).imp_right fun h => h.bind_left g
  · rw [hr] at h
    have hreads : p.Reads s a m := hr
    have hstop : m.stop = s.stop := hreads.stop_eq
    have hm := hg a m e s' (hs.of_suffix hreads.suffix) m.seen_nil h
    rw [hstop] at hm
    exact hm.imp_right fun h => h.bind_right hs hreads

theorem CutsAt.bind (hp : CutsAt ks p) (hg : ∀ a, CutsAt [] (g a)) :
  CutsAt ks (p >>= g)
  := by
  intro s r tail b s' hcut hseen h hlength
  obtain ⟨a, m, hfirst, hsecond⟩ := reads_bind.mp h
  obtain ⟨n, hn, hreads⟩ := hp s r tail a m hcut hseen hfirst
    (Nat.le_trans hlength hsecond.length_le)
  obtain ⟨r', hr', hreads'⟩ := hg a m n tail b s' hn m.seen_nil hsecond hlength
  exact ⟨r', hr', reads_bind.mpr ⟨a, n, hreads, hreads'⟩⟩

theorem TidyAt.bind_seen (hp : TidyAt ks p) (hg : ∀ a, Tidy (g a)) :
  TidyAt ks (p >>= g)
  := ⟨hp.locates.bind fun a => (hg a).locates, hp.cuts.bind fun a => (hg a).cuts⟩

theorem Tidy.bind (hp : p.Tidy) (hg : ∀ a, Tidy (g a)) :
  TidyAt ks (p >>= g)
  := (hp.seen ks).bind_seen hg

theorem Tidy.map (hp : p.Tidy) (f : α → β) :
  TidyAt ks (f <$> p)
  := by
  change TidyAt ks (p >>= fun a => pure (f a))
  apply hp.bind
  intro a
  apply tidy_pure

/-- A choice by what has been looked at. -/
theorem tidy_ite_of {b : Prop} [Decidable b] (hp : b → TidyAt ks p) (hq : ¬ b → TidyAt ks q) :
  TidyAt ks (if b then p else q)
  := by
  split
  · next hb => apply hp hb
  · next hb => apply hq hb

theorem tidy_ite {b : Prop} [Decidable b] (hp : TidyAt ks p) (hq : TidyAt ks q) :
  TidyAt ks (if b then p else q)
  := tidy_ite_of (fun _ => hp) fun _ => hq

/-- A choice by what a production has found out. -/
theorem Tidy.bind_ite {b : Production Bool} (hb : b.Tidy) (hp : p.Tidy) (hq : q.Tidy) :
  TidyAt ks (b >>= fun a => if a then p else q)
  := by
  apply hb.bind
  intro a
  apply tidy_ite hp hq

/-! ### Looking -/

theorem tidy_last {go : Span → Production α} (h : ∀ a, TidyAt ks (go a)) :
  TidyAt ks (last go)
  where
  locates s e s' hs hseen heval := by
    refine ((h s.last).locates s e s' hs hseen heval).imp_right fun h => h.of_eval ?_
    intro r halike
    simp only [eval, halike.last_eq]
  cuts s r tail a s' hcut hseen hreads hlength := by
    obtain ⟨r', hr', hreads'⟩ := (h s.last).cuts s r tail a s' hcut hseen hreads hlength
    rw [← hcut.last_eq] at hreads'
    exact ⟨r', hr', hreads'⟩

theorem tidy_spanFrom (start : Position) :
  Tidy (spanFrom start)
  := tidy_last fun _ => tidy_pure _

theorem locates_look {go : Token → Production α} {i : Lookahead} (hi : i.distance = ks.length)
    (h : ∀ t, LocatesAt (ks ++ [t.kind]) (go t)) :
  LocatesAt ks (look i go)
  := by
  intro s e s' hs hseen heval
  simp only [eval] at heval
  cases ht : s.peek i.distance with
  | error e' =>
      rw [ht] at heval
      obtain ⟨rfl, rfl⟩ : e' = e ∧ s = s' := by simpa using heval
      exact .inl (Tape.peek_eq_error_iff.mp ht).2
  | ok t =>
      rw [ht] at heval
      refine (h t s e s' hs (hseen.concat (hi ▸ ht)) heval).imp_right fun h => h.of_eval ?_
      intro r halike
      have hdistance : i.distance ≤ 2 := by
        cases i <;> decide
      simp only [eval, halike.peek_eq i.distance hdistance, ht]

/-- The token behind those that belong to the statement is looked at.  What is decided at a semicolon
is what is decided at the end of the text, unless the semicolon is taken. -/
theorem cuts_look_of {go : Token → Production α} {i : Lookahead} (hi : i.distance = ks.length)
    (hks : ∀ k ∈ ks, k.belongs) (h : ∀ t, CutsAt (ks ++ [t.kind]) (go t))
    (hend : ∀ t u : Token, t.kind.ends → u.kind = .eof →
      go t = go u ∨ i = .first ∧ t.kind ≠ .eof ∧ ∃ go', go t = take go') :
  CutsAt ks (look i go)
  := by
  intro s r tail a s' hcut hseen hreads hlength
  obtain ⟨t, ht, hgo⟩ := reads_look.mp hreads
  have hseen' := hseen.concat (hi ▸ ht)
  obtain ⟨r', hr', hreads'⟩ := h t s r tail a s' hcut hseen' hgo hlength
  use r', hr'
  rcases Nat.lt_or_eq_of_le (hcut.length_le_of_seen hseen hks) with hlt | heq
  · apply reads_look.mpr
    use t
    rw [hi, hcut.peek_of_lt hlt, ← hi]
    exact ⟨ht, hreads'⟩
  · obtain ⟨u, hu, hkind⟩ := hcut.peek_end
    obtain ⟨v, hv, hends⟩ := hcut.ends
    obtain rfl : t = v := by simpa [hi, heq, hv] using ht.symm
    rcases hend t u hends hkind with hsame | ⟨rfl, hne, go', htake⟩
    · apply reads_look.mpr
      use u
      rw [hi, heq, ← hsame]
      exact ⟨hu, hreads'⟩
    · -- a token is taken from a tape on which only the tail is left
      rw [htake] at hgo
      obtain ⟨m, hnext, htakes⟩ := Tape.next_of_peek ht hne
      simp only [Reads, eval, hnext] at hgo
      have hle := Reads.length_le hgo
      have htail := congrArg List.length hcut.tokens_eq
      have htokens := congrArg List.length htakes.tokens_eq
      simp only [Lookahead.distance] at hi
      simp only [List.length_append, List.length_cons, List.length_nil] at htail htokens
      omega

theorem tidy_look_of {go : Token → Production α} {i : Lookahead} (hi : i.distance = ks.length)
    (hks : ∀ k ∈ ks, k.belongs) (h : ∀ t, TidyAt (ks ++ [t.kind]) (go t))
    (hend : ∀ t u : Token, t.kind.ends → u.kind = .eof →
      go t = go u ∨ i = .first ∧ t.kind ≠ .eof ∧ ∃ go', go t = take go') :
  TidyAt ks (look i go)
  := ⟨locates_look hi fun t => (h t).locates, cuts_look_of hi hks (fun t => (h t).cuts) hend⟩

/-- The token behind those that belong to the statement is looked at; at the end of the statement
what goes on is `q`. -/
theorem tidy_look {go : Token → Production α} {i : Lookahead} (hi : i.distance = ks.length)
    (hks : ∀ k ∈ ks, k.belongs) (q : Production α) (h : ∀ t, TidyAt (ks ++ [t.kind]) (go t))
    (hend : ∀ t : Token, t.kind.ends → go t = q) :
  TidyAt ks (look i go)
  := by
  apply tidy_look_of hi hks h
  intro t u ht hu
  left
  rw [hend t ht, hend u (Kind.ends_iff.mpr (.inr hu))]

/-- A token of the statement that has been looked at is looked at again. -/
theorem tidy_look_again {go : Token → Production α} (hk : k.belongs)
    (h : ∀ t, t.kind = k → TidyAt (k :: ks) (go t)) :
  TidyAt (k :: ks) (look .first go)
  where
  locates s e s' hs hseen heval := by
    obtain ⟨t, ht, hkind⟩ := hseen 0 k rfl
    simp only [eval, Lookahead.distance, ht] at heval
    refine ((h t hkind).locates s e s' hs hseen heval).imp_right fun h => h.of_eval ?_
    intro r halike
    simp only [eval, Lookahead.distance, halike.peek_eq 0 (Nat.zero_le _), ht]
  cuts s r tail a s' hcut hseen hreads hlength := by
    obtain ⟨t, ht, hkind⟩ := hseen 0 k rfl
    obtain ⟨u, hu, hgo⟩ := reads_look.mp hreads
    obtain rfl : t = u := by simpa [Lookahead.distance, ht] using hu
    obtain ⟨r', hr', hreads'⟩ := (h t hkind).cuts s r tail a s' hcut hseen hgo hlength
    have hone : s.Seen [k] := by
      intro i l hi
      apply hseen i l
      cases i <;> simp_all
    have hlt := hcut.length_le_of_seen hone (by simpa using hk)
    refine ⟨r', hr', reads_look.mpr ⟨t, ?_, hreads'⟩⟩
    rw [← ht]
    apply hcut.peek_of_lt hlt

/-! ### Taking -/

/-- A token that has been looked at is taken.  If it is a number, it may be refused at once as the
parameter of a type. -/
theorem locates_take {go : Token → Production α} (hk : k ≠ .eof)
    (h : ∀ t, t.kind = k → LocatesAt ks (go t) ∨
      k = .number .integer ∧ go t = failLast (.parameterOutOfRange t.text)) :
  LocatesAt (k :: ks) (take go)
  := by
  intro s e s' hs hseen heval
  obtain ⟨t, ts, htokens, hkind, hbehind⟩ := hseen.exists_cons hk
  have htakes : s.Takes [t] ⟨ts, s.stop, t.span⟩ := ⟨htokens, rfl, rfl⟩
  have hsame : ∀ {n r}, s.Alike n r → r.Proper → ∃ r', r.next = (.ok t, r') ∧ r.Takes [t] r' := by
    intro n r halike hr
    apply Tape.next_of_peek ((halike.peek_eq 0 (Nat.zero_le _)).trans htakes.peek_zero)
    rw [hkind]
    exact hk
  simp only [eval, htakes.next_eq] at heval
  rcases h t hkind with hgo | ⟨hinteger, hgo⟩
  · refine (hgo _ e s' (hs.of_suffix htakes.suffix) hbehind heval).imp_right ?_
    rintro (⟨cause, peek, span⟩ | ⟨front, u, tokens_eq, kind, eq, alike⟩)
    · exact .ahead cause peek span
    · refine .behind (t :: front) u ?_ kind eq ?_
      · rw [htokens, List.cons_append]
        exact congrArg _ tokens_eq
      · intro r hr halike
        obtain ⟨r', hnext, hrtakes⟩ := hsame halike hr
        simp only [eval, hnext]
        apply alike r' (hr.of_suffix hrtakes.suffix)
        apply Tape.Alike.takes _ htakes hrtakes
        apply halike.mono
        simp only [List.length_cons]
        omega
  · rw [hgo] at heval
    obtain ⟨rfl, rfl⟩ : ⟨_, t.span⟩ = e ∧ ⟨ts, s.stop, t.span⟩ = s' := by simpa [eval] using heval
    refine .inr (.behind [] t htokens (hkind.trans hinteger) rfl ?_)
    intro r hr halike
    obtain ⟨r', hnext, hrtakes⟩ := hsame halike hr
    simp only [eval, hnext, hgo, hrtakes.last_eq, Span.lastOf_cons, Span.lastOf_nil]

theorem cuts_take {go : Token → Production α} (hk : k ≠ .eof)
    (h : ∀ t, t.kind = k → CutsAt ks (go t)) :
  CutsAt (k :: ks) (take go)
  := by
  intro s r tail a s' hcut hseen hreads hlength
  obtain ⟨t, ts, htokens, hkind, hbehind⟩ := hseen.exists_cons hk
  have htakes : s.Takes [t] ⟨ts, s.stop, t.span⟩ := ⟨htokens, rfl, rfl⟩
  simp only [Reads, eval, htakes.next_eq] at hreads
  have hle := Reads.length_le hreads
  obtain ⟨n, hn, hcut'⟩ := hcut.exists_takes htakes (Nat.le_trans hlength hle)
  obtain ⟨r', hr', hreads'⟩ := h t hkind _ n tail a s' hcut' hbehind hreads hlength
  refine ⟨r', hr', ?_⟩
  simp only [Reads, eval, hn.next_eq]
  exact hreads'

theorem tidy_take {go : Token → Production α} (hk : k ≠ .eof)
    (h : ∀ t, t.kind = k → TidyAt ks (go t)) :
  TidyAt (k :: ks) (take go)
  := ⟨locates_take hk fun t ht => .inl (h t ht).locates, cuts_take hk fun t ht => (h t ht).cuts⟩

/-- A number is taken, and may be refused as the parameter of a type. -/
theorem tidy_take_number {go : Token → Production α}
    (h : ∀ t, TidyAt ks (go t) ∨ go t = failLast (.parameterOutOfRange t.text)) :
  TidyAt (.number .integer :: ks) (take go)
  where
  locates := locates_take (by simp) fun t _ => (h t).imp (·.locates) fun hgo => ⟨rfl, hgo⟩
  cuts := by
    apply cuts_take (by simp)
    intro t _
    rcases h t with hgo | hgo
    · apply hgo.cuts
    · intro s r tail a s' _ _ hreads
      rw [hgo] at hreads
      exact absurd hreads reads_failLast

section

variable {go : Token → Production α}

theorem tidy_advance_bind (hk : k ≠ .eof) (h : ∀ t, TidyAt ks (go t)) :
  TidyAt (k :: ks) (advance >>= go)
  := tidy_take hk fun t _ => h t

theorem locates_peek_bind (h : ∀ t, LocatesAt [t.kind] (go t)) :
  LocatesAt [] (peek >>= go)
  := locates_look (i := .first) rfl h

theorem tidy_peek_bind_of (h : ∀ t, TidyAt [t.kind] (go t))
    (hend : ∀ t u : Token, t.kind.ends → u.kind = .eof →
      go t = go u ∨ t.kind ≠ .eof ∧ ∃ go', go t = take go') :
  Tidy (peek >>= go)
  := by
  apply tidy_look_of (i := .first) rfl (by simp) h
  intro t u ht hu
  exact (hend t u ht hu).imp_right fun htake => ⟨rfl, htake⟩

/-- What goes on after a look at the next token has seen it; at the end of a statement it is `q`. -/
theorem tidy_peek_bind (q : Production α) (h : ∀ t, TidyAt [t.kind] (go t))
    (hend : ∀ t : Token, t.kind.ends → go t = q) :
  Tidy (peek >>= go)
  := tidy_look (i := .first) rfl (by simp) q h hend

theorem tidy_second_bind (hk : k.belongs) (q : Production α) (h : ∀ t, TidyAt [k, t.kind] (go t))
    (hend : ∀ t : Token, t.kind.ends → go t = q) :
  TidyAt [k] (peekAt .second >>= go)
  := tidy_look (i := .second) rfl (by simpa using hk) q h hend

theorem tidy_third_bind (hk : k.belongs) (hl : l.belongs) (q : Production α)
    (h : ∀ t, TidyAt [k, l, t.kind] (go t)) (hend : ∀ t : Token, t.kind.ends → go t = q) :
  TidyAt [k, l] (peekAt .third >>= go)
  := tidy_look (i := .third) rfl (by simp [hk, hl]) q h hend

end

theorem locates_nextIs (k : Kind) :
  LocatesAt [] (nextIs k)
  := locates_look (i := .first) rfl fun _ => (tidy_pure _).locates

/-- At the end of a statement there is no token of a kind that belongs to statements. -/
theorem tidy_nextIs (hk : k.belongs) :
  Tidy (nextIs k)
  := by
  apply tidy_look (i := .first) rfl (by simp) (pure false)
  · intro t
    apply tidy_pure
  · intro t ht
    simp only [Kind.ne_of_ends ht hk, decide_false]
    rfl

/-- Where the next token is of the kind that is asked for, it has been looked at. -/
theorem tidy_nextIs_bind_ite (hk : k.belongs) (hp : TidyAt [k] p) (hq : q.Tidy) :
  Tidy (nextIs k >>= fun a => if a then p else q)
  := by
  rw [nextIs_bind_ite]
  apply tidy_look (i := .first) rfl (by simp) q
  · intro t
    apply tidy_ite_of
    · intro hkind
      rw [hkind]
      apply hp
    · intro _
      apply hq.seen
  · exact fun t ht => if_neg (Kind.ne_of_ends ht hk)

/-- Where the next two tokens are of the kinds that are asked for, they have been looked at. -/
theorem tidy_nextAre_bind_ite (hk : k.belongs) (hl : l.belongs) (hp : TidyAt [k, l] p)
    (hq : q.Tidy) :
  Tidy (nextAre k l >>= fun a => if a then p else q)
  := by
  rw [nextAre_bind_ite]
  apply tidy_look (i := .first) rfl (by simp) q
  · intro t
    apply tidy_ite_of
    · intro hfirst
      rw [hfirst]
      apply tidy_look (i := .second) rfl (by simpa using hk) q
      · intro u
        apply tidy_ite_of
        · intro hsecond
          rw [hsecond]
          apply hp
        · intro _
          apply hq.seen
      · exact fun u hu => if_neg (Kind.ne_of_ends hu hl)
    · intro _
      apply hq.seen
  · exact fun t ht => if_neg (Kind.ne_of_ends ht hk)

/-- A token is taken if it is of some kind that belongs to statements. -/
theorem tidy_take_if (hk : k.belongs) {go : Token → Production α} (hp : ∀ t, Tidy (go t))
    (hq : q.Tidy) :
  Tidy (look .first fun t => if t.kind = k then take go else q)
  := by
  apply tidy_look (i := .first) rfl (by simp) q
  · intro t
    apply tidy_ite_of
    · intro hkind
      rw [hkind]
      apply tidy_take
      · rintro rfl
        contradiction
      · intro u _
        apply hp
    · intro _
      apply hq.seen
  · exact fun t ht => if_neg (Kind.ne_of_ends ht hk)

theorem tidy_accept (hk : k.belongs) :
  Tidy (accept k)
  := tidy_take_if hk (fun _ => tidy_pure _) (tidy_pure _)

theorem tidy_accept? (hk : k.belongs) :
  Tidy (accept? k)
  := tidy_take_if hk (fun _ => tidy_pure _) (tidy_pure _)

theorem expect_bind {g : Token → Production α} :
  (expect k >>= g) = look .first fun t => if t.kind = k then take g else expected k.phrase
  := take_if_bind

theorem tidy_expect (hk : k.belongs) :
  Tidy (expect k)
  := tidy_take_if hk (fun _ => tidy_pure _) (tidy_expected _)

theorem locates_accept (hk : k ≠ .eof) :
  LocatesAt [] (accept k)
  := by
  apply locates_look (i := .first) rfl
  intro t
  split
  · next hkind =>
      rw [hkind]
      apply (tidy_take hk fun t _ => tidy_pure true).locates
  · apply (tidy_pure _).locates

/-! ### The place where a production begins -/

theorem locates_here :
  LocatesAt [] here
  := locates_look (i := .first) rfl fun _ => (tidy_pure _).locates

/-- The place where a production begins may be another one where the text is cut, if without taking
a token the same is read for all places. -/
theorem tidy_here_bind_of {g : Position → Production α} (hidle : ∀ a b, (g a).Idle (g b))
    (h : ∀ start, Tidy (g start)) :
  Tidy (here >>= g)
  where
  locates := locates_here.bind fun start => (h start).locates
  cuts s r tail a s' hcut hseen hreads hlength := by
    obtain ⟨t, ht, hgo⟩ := reads_look.mp hreads
    obtain ⟨r', hr', hreads'⟩ := (h _).cuts s r tail a s' hcut hseen hgo hlength
    use r', hr'
    obtain ⟨tokens, stop, last⟩ := r
    cases tokens with
    | cons u us =>
        refine reads_look.mpr ⟨t, ?_, hreads'⟩
        rw [← ht]
        apply hcut.peek_of_lt
        simp [Lookahead.distance]
    | nil =>
        obtain ⟨u, hu, -⟩ := hcut.peek_end
        refine reads_look.mpr ⟨u, hu, hidle _ _ _ _ _ hreads' ?_⟩
        simp

theorem tidy_here_bind {g : Position → Production α} (hg : ∀ a, (g a).Consumes)
    (h : ∀ start, Tidy (g start)) :
  Tidy (here >>= g)
  := tidy_here_bind_of (fun a _ => (hg a).idle) h

theorem consumes_ite {b : Prop} [Decidable b] (hp : p.Consumes) (hq : q.Consumes) :
  (if b then p else q).Consumes
  := by
  split
  · apply hp
  · apply hq

theorem consumes_accept_bind (hk : k ≠ .eof) {g : Bool → Production β} (h : (g false).Consumes) :
  (accept k >>= g).Consumes
  := by
  intro s b s' hreads
  rcases (reads_accept_bind hk).mp hreads with ⟨t, m, -, htakes, hg⟩ | ⟨t, -, -, hg⟩
  · exact hg.length_lt_of_takes htakes
  · exact h s b s' hg

/-! ### Lists -/

theorem Tidy.collect {entry : Production (Option α)} (h : entry.Tidy) (n : Nat) (found : List α) :
  Tidy (collect entry n found)
  := by
  induction n generalizing found with
  | zero => exact tidy_fail fun _ => rfl
  | succ n ih =>
      apply h.bind
      intro o
      cases o with
      | none => apply tidy_pure
      | some a => apply ih

theorem Tidy.afterToken? (hp : p.Tidy) (hk : k.belongs) :
  Tidy (afterToken? k p)
  := (tidy_accept hk).bind_ite (hp.map some) (tidy_pure _)

theorem Tidy.commaList (hp : p.Tidy) (n : Nat) :
  Tidy (commaList n p)
  := by
  apply hp.bind
  intro first
  apply ((hp.afterToken? rfl).collect n []).bind
  intro further
  apply tidy_pure

theorem afterToken?_idle (hk : k ≠ .eof) (p p' : Production α) :
  (afterToken? k p).Idle (afterToken? k p')
  := by
  intro s a s' hreads hle
  rcases (reads_accept_bind hk).mp hreads with ⟨t, m, -, htakes, h⟩ | ⟨t, ht, hkind, h⟩
  · exact absurd (h.length_lt_of_takes htakes) (Nat.not_lt.mpr hle)
  · exact (reads_accept_bind hk).mpr (.inr ⟨t, ht, hkind, h⟩)

end Production

end SqlFront
