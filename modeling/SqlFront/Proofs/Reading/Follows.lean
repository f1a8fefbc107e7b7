import SqlFront.Proofs.Reading.Embedding

/-!
# Productions that follow others

Productions never look at positions, and they look behind a semicolon only once they have taken it.
So a production that is run on a tape gives what it gives where the tape lies in another one, moved.
The relation `p.Follows c limit p'` says a little more, for two productions: where a tape with fewer
tokens than the limit lies in another one, `p'` gives what `p` gives on the tape itself.  The bounds
on the lengths of lists may differ, as long as neither is below the limit.

What has been looked at is part of the relation: `p.FollowsAt c limit ks p'` is about tapes on which
tokens of the kinds `ks` come next, so that these may be taken, and the token behind them looked at.
-/

namespace SqlFront.Production

variable {α β : Type}

/-! ### Readings do not give tokens back -/

theorem tokens_eval_suffix (p : Production α) (s : Tape) :
  (p.eval s).2.tokens <:+ s.tokens
  := by
  induction p generalizing s with
  | done | failLast => apply List.suffix_refl
  | look k go ih =>
      simp only [eval]
      cases s.peek k.distance with
      | error e => apply List.suffix_refl
      | ok t => apply ih
  | take go ih =>
      obtain ⟨tokens, stop, last⟩ := s
      cases tokens with
      | cons t ts => exact (ih t _).trans (List.suffix_cons t ts)
      | nil =>
          cases stop with
          | error e => apply List.suffix_refl
          | ok p => apply ih
  | last go ih => apply ih
  | fail cause =>
      simp only [eval]
      cases s.peek 0 <;> apply List.suffix_refl

theorem length_eval_le (p : Production α) (s : Tape) :
  (p.eval s).2.tokens.length ≤ s.tokens.length
  := (tokens_eval_suffix p s).length_le

theorem Reads.suffix {p : Production α} {s s' : Tape} {a : α} (h : p.Reads s a s') :
  s'.tokens <:+ s.tokens
  := by
  have hsuffix := tokens_eval_suffix p s
  rw [h] at hsuffix
  apply hsuffix

theorem Reads.length_le {p : Production α} {s s' : Tape} {a : α} (h : p.Reads s a s') :
  s'.tokens.length ≤ s.tokens.length
  := h.suffix.length_le

/-- Behind a token that was taken fewer are left. -/
theorem Reads.length_lt_of_takes {p : Production α} {s m s' : Tape} {t : Token} {a : α}
    (h : p.Reads m a s') (htakes : s.Takes [t] m) :
  s'.tokens.length < s.tokens.length
  := by
  rw [htakes.tokens_eq]
  exact Nat.lt_succ_of_le h.length_le

/-- Whatever the production yields, it has taken a token. -/
def Consumes (p : Production α) : Prop :=
  ∀ s a s', p.Reads s a s' → s'.tokens.length < s.tokens.length

/-- Whenever the production yields something, it has taken a token. -/
def Progresses (p : Production (Option α)) : Prop :=
  ∀ s a s', p.Reads s (some a) s' → s'.tokens.length < s.tokens.length

theorem Consumes.bind {p : Production α} (h : p.Consumes) (g : α → Production β) :
  (p >>= g).Consumes
  := by
  intro s b s' hreads
  obtain ⟨a, m, hp, hg⟩ := reads_bind.mp hreads
  exact Nat.lt_of_le_of_lt hg.length_le (h s a m hp)

theorem consumes_bind {p : Production α} {g : α → Production β} (h : ∀ a, (g a).Consumes) :
  (p >>= g).Consumes
  := by
  intro s b s' hreads
  obtain ⟨a, m, hp, hg⟩ := reads_bind.mp hreads
  exact Nat.lt_of_lt_of_le (h a m b s' hg) hp.length_le

theorem Consumes.progresses {p : Production (Option α)} (h : p.Consumes) :
  p.Progresses
  := fun s a s' hreads => h s (.some a) s' hreads

theorem Consumes.some {p : Production α} (h : p.Consumes) :
  (some <$> p).Progresses
  := by
  intro s a s' hreads
  obtain ⟨b, hb, -⟩ := reads_map.mp hreads
  apply h s b s' hb

theorem progresses_none :
  (pure none : Production (Option α)).Progresses
  := by
  intro s a s' hreads
  obtain ⟨h, -⟩ := reads_pure.mp hreads
  contradiction

theorem progresses_bind {p : Production α} {g : α → Production (Option β)}
    (h : ∀ a, (g a).Progresses) :
  (p >>= g).Progresses
  := by
  intro s b s' hreads
  obtain ⟨a, m, hp, hg⟩ := reads_bind.mp hreads
  exact Nat.lt_of_lt_of_le (h a m b s' hg) hp.length_le

theorem progresses_ite {b : Prop} [Decidable b] {p q : Production (Option α)} (hp : p.Progresses)
    (hq : q.Progresses) :
  (if b then p else q).Progresses
  := by
  split
  · apply hp
  · apply hq

theorem expect_consumes {k : Kind} (hk : k ≠ .eof) :
  (expect k).Consumes
  := by
  intro s t s' hreads
  rw [((reads_expect hk).mp hreads).2.tokens_eq]
  simp

theorem accept?_progresses {k : Kind} (hk : k ≠ .eof) :
  (accept? k).Progresses
  := by
  intro s t s' hreads
  rcases (reads_accept? hk).mp hreads with ⟨_, -, -, htakes⟩ | ⟨h, -⟩
  · rw [htakes.tokens_eq]
    simp
  · contradiction

theorem afterToken?_progresses {k : Kind} (hk : k ≠ .eof) (p : Production α) :
  (afterToken? k p).Progresses
  := by
  intro s a s' hreads
  rcases (reads_accept_bind hk).mp hreads with ⟨t, m, -, htakes, h⟩ | ⟨t, -, -, h⟩
  · exact h.length_lt_of_takes htakes
  · obtain ⟨h, -⟩ := reads_pure.mp h
    contradiction

/-! ### The relation -/

variable [Movable α] [Movable β] {c : Embedding} {limit limit' : Nat} {ks : List Kind}
  {p p' : Production α} {g g' : α → Production β} {k l : Kind}

/-- Where tapes lie in others, `p'` gives what `p` gives, on tapes with fewer tokens than the limit on
which tokens of the kinds `ks` come next. -/
def FollowsAt (c : Embedding) (limit : Nat) (ks : List Kind) (p p' : Production α) : Prop :=
  ∀ s : Tape, s.tokens.length < limit → c.fits s → s.Seen ks →
    c.Agrees (p.eval s) (p'.eval (c.tape s))

/-- Where tapes lie in others, `p'` gives what `p` gives, on tapes with fewer tokens than the
limit. -/
abbrev Follows (c : Embedding) (limit : Nat) (p p' : Production α) : Prop := FollowsAt c limit [] p p'

/-- Where tapes lie in others, `p` gives what it gives on them. -/
abbrev Natural (c : Embedding) (limit : Nat) (p : Production α) : Prop := Follows c limit p p

theorem FollowsAt.mono (h : FollowsAt c limit ks p p') (hle : limit' ≤ limit) :
  FollowsAt c limit' ks p p'
  := fun s hs => h s (Nat.lt_of_lt_of_le hs hle)

theorem Follows.seen (h : Follows c limit p p') (ks : List Kind) :
  FollowsAt c limit ks p p'
  := fun s hs hfits _ => h s hs hfits s.seen_nil

/-- There is no tape with fewer than no tokens. -/
theorem follows_zero :
  Follows c 0 p p'
  := fun _ hs => absurd hs (Nat.not_lt_zero _)

/-- On moved tapes `p'` gives what `p` gives, moved, unless it fails for an allowed cause. -/
theorem Follows.eval_move {f : Position → Position} {allow : Cause → Prop}
    (h : Follows (.moved f allow) limit p p') {s : Tape} (hs : s.tokens.length < limit) :
  p'.eval (move f s) = (move f (p.eval s).1, move f (p.eval s).2) ∨
    ∃ e s', p'.eval (move f s) = (.error e, s') ∧ allow e.cause
  := by
  have hagrees := h s hs trivial s.seen_nil
  change (Embedding.moved f allow).Agrees _ (p'.eval (move f s)) at hagrees
  generalize p.eval s = r at hagrees
  generalize p'.eval (move f s) = r' at hagrees
  cases hagrees with
  | same => exact .inl rfl
  | allowed isAllowed => exact .inr ⟨_, _, rfl, isAllowed⟩
  | failed apart => exact absurd trivial apart

/-- Where no cause is allowed, what is read on a tape is read where it lies in another one. -/
theorem Follows.reads (h : Follows c limit p p') (hc : ∀ cause, ¬ c.allow cause) {s m : Tape} {a : α}
    (hs : s.tokens.length < limit) (hfits : c.fits s) (hreads : p.Reads s a m) :
  c.fits m ∧ p'.Reads (c.tape s) (move c.map a) (c.tape m)
  := by
  have hagrees := h s hs hfits s.seen_nil
  rw [hreads] at hagrees
  rw [Reads]
  generalize p'.eval (c.tape s) = r' at hagrees
  cases hagrees with
  | same fits => exact ⟨fits, rfl⟩
  | allowed isAllowed => exact absurd isAllowed (hc _)

/-! ### Building blocks -/

theorem follows_pure {a b : α} (h : b = move c.map a) :
  FollowsAt c limit ks (pure a) (pure b)
  := by
  intro s _ hfits _
  rw [h]
  exact .same hfits

theorem follows_fail {cause : Token → Cause} (h : ∀ t, cause (move c.map t) = move c.map (cause t)) :
  FollowsAt (α := α) c limit ks (fail cause) (fail cause)
  := by
  intro s _ hfits _
  have hpeek : (c.tape s).peek 0 = move c.map (s.peek 0) := c.peek_tape hfits s.seen_nil (by simp)
  simp only [eval, hpeek]
  cases s.peek 0 with
  | error e => exact .same hfits
  | ok t =>
      change c.Agrees (α := α) _
        (Except.error ⟨cause (move c.map t), move c.map (.point t.span.start)⟩, c.tape s)
      rw [h]
      exact .same (r := .error _) hfits

theorem follows_failLast {cause : Cause} (h : cause = move c.map cause) :
  FollowsAt (α := α) c limit ks (failLast cause) (failLast cause)
  := by
  intro s _ hfits _
  simp only [eval, c.last_tape]
  nth_rewrite 2 [h]
  exact .same (r := .error _) hfits

theorem follows_last {go go' : Span → Production α}
    (h : ∀ a, FollowsAt c limit ks (go a) (go' (move c.map a))) :
  FollowsAt c limit ks (last go) (last go')
  := by
  intro s hs hfits hseen
  simp only [eval, c.last_tape]
  apply h _ s hs hfits hseen

/-- The token behind those that have been looked at may be looked at if they belong to statements. -/
theorem follows_look {go go' : Token → Production α} (m : Lookahead) (hm : m.distance = ks.length)
    (hks : ∀ k ∈ ks, k.belongs)
    (h : ∀ t, FollowsAt c limit (ks ++ [t.kind]) (go t) (go' (move c.map t))) :
  FollowsAt c limit ks (look m go) (look m go')
  := by
  intro s hs hfits hseen
  have hpeek := c.peek_tape hfits hseen hks
  simp only [eval, hm, hpeek]
  cases ht : s.peek ks.length with
  | error e => exact .same (r := .error e) hfits
  | ok t => apply h t s hs hfits (hseen.concat ht)

/-- A token that has been looked at may be taken, if not only its tape but also the one behind it is
of the kind that the embedding is about, or there what goes on fails. -/
theorem follows_take_of {go go' : Token → Production α} (hk : k ≠ .eof) (hk' : k ≠ .unrecognized)
    (h : ∀ t, FollowsAt c (limit - 1) ks (go t) (go' (move c.map t)))
    (hend : ¬ c.total → k = .semicolon → ∀ (t : Token) (s : Tape), s.tokens = [] →
      ∃ e s', (go t).eval s = (.error e, s')) :
  FollowsAt c limit (k :: ks) (take go) (take go')
  := by
  intro s hs hfits hseen
  obtain ⟨t, ts, htokens, rfl, hks⟩ := hseen.exists_cons hk
  have hnext : s.next = (.ok t, ⟨ts, s.stop, t.span⟩) := by
    simp only [Tape.next, htokens]
  have hlength : ts.length < limit - 1 := by
    rw [htokens, List.length_cons] at hs
    omega
  simp only [eval, hnext, c.next_tape hfits htokens]
  rcases c.fits_next hfits htokens hk' with hbehind | ⟨htotal, hsemicolon, hnil⟩
  · apply h t _ hlength hbehind hks
  · obtain ⟨e, s', herror⟩ := hend htotal hsemicolon t ⟨ts, s.stop, t.span⟩ hnil
    rw [herror]
    exact .failed htotal

/-- A token that has been looked at and belongs to statements may be taken. -/
theorem follows_take {go go' : Token → Production α} (hk : k.belongs)
    (h : ∀ t, FollowsAt c (limit - 1) ks (go t) (go' (move c.map t))) :
  FollowsAt c limit (k :: ks) (take go) (take go')
  := by
  apply follows_take_of _ _ h
  · rintro - rfl
    contradiction
  · rintro rfl
    contradiction
  · rintro rfl
    contradiction

/-- What goes on after a reading may be compared for the tapes that it leaves only. -/
theorem FollowsAt.bind_reads (hp : FollowsAt c limit ks p p')
    (hg : ∀ s a s', s.tokens.length < limit → p.Reads s a s' →
      ∃ limit', s'.tokens.length < limit' ∧ Follows c limit' (g a) (g' (move c.map a))) :
  FollowsAt c limit ks (p >>= g) (p' >>= g')
  := by
  intro s hs hfits hseen
  have h := hp s hs hfits hseen
  rw [eval_bind, eval_bind]
  generalize hr : p.eval s = r at h
  generalize p'.eval (c.tape s) = r' at h
  cases h with
  | @same r m hm =>
      cases r with
      | error e => exact .same (r := .error e) hm
      | ok a =>
          obtain ⟨limit', hlength, hfollows⟩ := hg s a m hs hr
          apply hfollows m hlength hm m.seen_nil
  | allowed he => exact .allowed he
  | failed apart => exact .failed apart

theorem FollowsAt.bind_seen (hp : FollowsAt c limit ks p p')
    (hg : ∀ a, Follows c limit (g a) (g' (move c.map a))) :
  FollowsAt c limit ks (p >>= g) (p' >>= g')
  := by
  apply hp.bind_reads
  intro s a s' hs hreads
  refine ⟨limit, ?_, hg a⟩
  have hle := length_eval_le p s
  rw [hreads] at hle
  exact Nat.lt_of_le_of_lt hle hs

theorem Follows.bind (hp : Follows c limit p p')
    (hg : ∀ a, Follows c limit (g a) (g' (move c.map a))) :
  FollowsAt c limit ks (p >>= g) (p' >>= g')
  := (hp.seen ks).bind_seen hg

/-- A choice by what has been looked at. -/
theorem follows_ite_of {b : Prop} [Decidable b] {q q' : Production α}
    (hp : b → FollowsAt c limit ks p p') (hq : ¬ b → FollowsAt c limit ks q q') :
  FollowsAt c limit ks (if b then p else q) (if b then p' else q')
  := by
  split
  · next hb => apply hp hb
  · next hb => apply hq hb

theorem follows_ite {b : Prop} [Decidable b] {q q' : Production α}
    (hp : FollowsAt c limit ks p p') (hq : FollowsAt c limit ks q q') :
  FollowsAt c limit ks (if b then p else q) (if b then p' else q')
  := follows_ite_of (fun _ => hp) fun _ => hq

/-- A choice by what a production has found out. -/
theorem Follows.bind_ite {b b' : Production Bool} {q q' : Production α} (hb : Follows c limit b b')
    (hp : Follows c limit p p') (hq : Follows c limit q q') :
  FollowsAt c limit ks (b >>= fun a => if a then p else q) (b' >>= fun a => if a then p' else q')
  := by
  apply hb.bind
  intro a
  apply follows_ite hp hq

theorem Follows.map {h : α → β} (hp : Follows c limit p p')
    (hh : ∀ a, h (move c.map a) = move c.map (h a)) :
  FollowsAt c limit ks (h <$> p) (h <$> p')
  := by
  change FollowsAt c limit ks (p >>= fun a => pure (h a)) (p' >>= fun a => pure (h a))
  apply hp.bind
  intro a
  apply follows_pure (hh a)

theorem Follows.some (hp : Follows c limit p p') :
  FollowsAt c limit ks (some <$> p) (some <$> p')
  := hp.map fun _ => rfl

/-! ### Looking and taking -/

section

variable {go go' : Token → Production α}

/-- What goes on after a look at the next token has seen it. -/
theorem follows_peek_bind (h : ∀ t, FollowsAt c limit [t.kind] (go t) (go' (move c.map t))) :
  Follows c limit (peek >>= go) (peek >>= go')
  := follows_look .first rfl (by simp) h

theorem follows_second_bind (hk : k.belongs)
    (h : ∀ t, FollowsAt c limit [k, t.kind] (go t) (go' (move c.map t))) :
  FollowsAt c limit [k] (peekAt .second >>= go) (peekAt .second >>= go')
  := follows_look .second rfl (by simpa using hk) h

theorem follows_third_bind (hk : k.belongs) (hl : l.belongs)
    (h : ∀ t, FollowsAt c limit [k, l, t.kind] (go t) (go' (move c.map t))) :
  FollowsAt c limit [k, l] (peekAt .third >>= go) (peekAt .third >>= go')
  := follows_look .third rfl (by simp [hk, hl]) h

/-- What goes on behind a token that is taken has a tape with fewer tokens. -/
theorem follows_advance_lt (hk : k.belongs)
    (h : ∀ t, FollowsAt c (limit - 1) ks (go t) (go' (move c.map t))) :
  FollowsAt c limit (k :: ks) (advance >>= go) (advance >>= go')
  := follows_take hk h

theorem follows_advance_bind (hk : k.belongs)
    (h : ∀ t, FollowsAt c limit ks (go t) (go' (move c.map t))) :
  FollowsAt c limit (k :: ks) (advance >>= go) (advance >>= go')
  := follows_take hk fun t => (h t).mono (Nat.sub_le limit 1)

end

theorem follows_advance (hk : k.belongs) :
  FollowsAt c limit (k :: ks) advance advance
  := by
  apply follows_take hk
  intro t
  apply follows_pure rfl

theorem follows_here :
  Natural c limit here
  := by
  apply follows_look .first rfl (by simp)
  intro t
  apply follows_pure rfl

theorem follows_expected (wanted : String) :
  FollowsAt (α := α) c limit ks (expected wanted) (expected wanted)
  := follows_fail fun _ => rfl

theorem follows_spanFrom (start : Position) :
  Follows c limit (spanFrom start) (spanFrom (move c.map start))
  := by
  apply follows_last
  intro a
  apply follows_pure rfl

theorem follows_nextIs (k : Kind) :
  Natural c limit (nextIs k)
  := by
  apply follows_look .first rfl (by simp)
  intro t
  apply follows_pure rfl

omit [Movable α] in
theorem nextIs_bind_ite {q : Production α} :
  (nextIs k >>= fun a => if a then p else q) = look .first fun t => if t.kind = k then p else q
  := by
  apply congrArg (look .first)
  funext t
  change (if decide (t.kind = k) then p else q) = _
  simp only [decide_eq_true_eq]

omit [Movable α] in
theorem nextAre_bind_ite {q : Production α} :
  (nextAre k l >>= fun a => if a then p else q) = look .first fun t =>
    if t.kind = k then look .second fun u => if u.kind = l then p else q else q
  := by
  apply congrArg (look .first)
  funext t
  by_cases hk : t.kind = k
  · simp only [hk, if_true]
    apply congrArg (look .second)
    funext u
    change (if decide (u.kind = l) then p else q) = _
    simp only [decide_eq_true_eq]
  · simp only [hk, if_false]
    rfl

/-- Where the next token is of the kind that is asked for, it has been looked at. -/
theorem follows_nextIs_bind_ite {q q' : Production α} (hp : FollowsAt c limit [k] p p')
    (hq : Follows c limit q q') :
  Follows c limit (nextIs k >>= fun a => if a then p else q)
    (nextIs k >>= fun a => if a then p' else q')
  := by
  rw [nextIs_bind_ite, nextIs_bind_ite]
  apply follows_look .first rfl (by simp)
  intro t
  apply follows_ite_of
  · intro hk
    rw [hk]
    apply hp
  · intro _
    apply hq.seen

/-- Where the next two tokens are of the kinds that are asked for, they have been looked at. -/
theorem follows_nextAre_bind_ite {q q' : Production α} (hk : k.belongs)
    (hp : FollowsAt c limit [k, l] p p') (hq : Follows c limit q q') :
  Follows c limit (nextAre k l >>= fun a => if a then p else q)
    (nextAre k l >>= fun a => if a then p' else q')
  := by
  rw [nextAre_bind_ite, nextAre_bind_ite]
  apply follows_look .first rfl (by simp)
  intro t
  apply follows_ite_of
  · intro hfirst
    rw [hfirst]
    apply follows_look .second rfl (by simpa using hk)
    intro u
    apply follows_ite_of
    · intro hsecond
      rw [hsecond]
      apply hp
    · intro _
      apply hq.seen
  · intro _
    apply hq.seen

/-- Taking the next token only if it is of a kind that belongs to statements. -/
theorem follows_take_if {go go' : Token → Production α} {q q' : Production α} (hk : k.belongs)
    (hp : ∀ t, Follows c limit (go t) (go' (move c.map t))) (hq : Follows c limit q q') :
  Follows c limit (look .first fun t => if t.kind = k then take go else q)
    (look .first fun t => if t.kind = k then take go' else q')
  := by
  apply follows_look .first rfl (by simp)
  intro t
  apply follows_ite_of
  · intro hkind
    rw [hkind]
    apply follows_take hk
    intro t
    apply (hp t).mono (Nat.sub_le limit 1)
  · intro _
    apply hq.seen

theorem follows_accept? (hk : k.belongs) :
  Natural c limit (accept? k)
  := follows_take_if hk (fun _ => follows_pure rfl) (follows_pure rfl)

omit [Movable α] [Movable β] in
theorem take_if_bind {go : Token → Production α} {q : Production α} {g : α → Production β} :
  ((look .first fun t => if t.kind = k then take go else q) >>= g) =
    look .first fun t => if t.kind = k then take fun u => go u >>= g else q >>= g
  := by
  apply congrArg (look .first)
  funext t
  by_cases hk : t.kind = k
  · simp only [hk, if_true]
    rfl
  · simp only [hk, if_false]
    rfl

omit [Movable α] in
theorem accept_bind {g : Bool → Production α} :
  (accept k >>= g) = look .first fun t => if t.kind = k then take fun _ => g true else g false
  := take_if_bind

/-- Where readings that fail are compared, also a token that ends a statement may be taken. -/
theorem follows_accept_bind {g g' : Bool → Production α} (hc : c.total) (hk : k ≠ .eof)
    (hk' : k ≠ .unrecognized) (htrue : Follows c (limit - 1) (g true) (g' true))
    (hfalse : Follows c limit (g false) (g' false)) :
  Follows c limit (accept k >>= g) (accept k >>= g')
  := by
  rw [accept_bind, accept_bind]
  apply follows_look .first rfl (by simp)
  intro t
  apply follows_ite_of
  · intro hkind
    rw [hkind]
    apply follows_take_of hk hk' fun _ => htrue
    intro htotal
    contradiction
  · intro _
    apply hfalse.seen

theorem follows_accept (hk : k.belongs) :
  Natural c limit (accept k)
  := follows_take_if hk (fun _ => follows_pure rfl) (follows_pure rfl)

theorem follows_expect (hk : k.belongs) :
  Natural c limit (expect k)
  := follows_take_if hk (fun _ => follows_pure rfl) (follows_expected _)

/-! ### Lists -/

/-- The bounds on the length of a list are no less than the limit. -/
abbrev Enough (limit n n' : Nat) : Prop := limit ≤ n ∧ limit ≤ n'

theorem Enough.refl (n : Nat) :
  Enough n n n
  := ⟨Nat.le_refl n, Nat.le_refl n⟩

/-- Where there may be another token, a list may have another entry, and the bounds are enough
behind it. -/
theorem Enough.exists_succ {n n' : Nat} (h : Enough (limit + 1) n n') :
  ∃ m m', n = m + 1 ∧ n' = m' + 1 ∧ Enough limit m m'
  := by
  obtain ⟨hn, hn'⟩ := h
  exact ⟨n - 1, n' - 1, by omega, by omega, by omega, by omega⟩

theorem Follows.collect {entry entry' : Production (Option α)}
    (h : Follows c limit entry entry') (hentry : entry.Progresses) {n n' : Nat}
    (hn : Enough limit n n') {found found' : List α} (hfound : found' = move c.map found) :
  Follows c limit (collect entry n found) (Production.collect entry' n' found')
  := by
  subst hfound
  induction limit generalizing n n' found with
  | zero => apply follows_zero
  | succ limit ih =>
      obtain ⟨n, n', rfl, rfl, hless⟩ := hn.exists_succ
      apply h.bind_reads
      intro s o s' hs hreads
      cases o with
      | none =>
          refine ⟨limit + 1, ?_, ?_⟩
          · have hle := length_eval_le entry s
            rw [hreads] at hle
            exact Nat.lt_of_le_of_lt hle hs
          · apply follows_pure
            simp [move]
      | some a =>
          have hlt := hentry s a s' hreads
          refine ⟨limit, by omega, ?_⟩
          apply ih (h.mono (Nat.le_succ limit)) hless

theorem Follows.afterToken? (hp : Follows c limit p p') (hk : k.belongs) :
  Follows c limit (afterToken? k p) (Production.afterToken? k p')
  := by
  apply (follows_accept hk).bind_ite hp.some
  apply follows_pure rfl

theorem Follows.commaList (hp : Follows c limit p p') {n n' : Nat} (hn : Enough limit n n') :
  Follows c limit (commaList n p) (Production.commaList n' p')
  := by
  apply hp.bind
  intro first
  apply ((hp.afterToken? rfl).collect (afterToken?_progresses (by simp) p) hn rfl).bind
  intro further
  apply follows_pure rfl

/-! ### Giving up -/

/-- A production that looks at the next token before anything else. -/
def LooksFirst (p : Production α) : Prop :=
  ∀ (s : Tape) (e : Fault), s.peek 0 = .error e → p.eval s = (.error e, s)

/-- Giving up at once, for an allowed cause, follows whatever looks at the next token first. -/
theorem LooksFirst.follows_fail (h : p.LooksFirst) {cause : Token → Cause}
    (hallow : ∀ t, c.allow (cause t)) :
  Follows c limit p (fail cause)
  := by
  intro s _ hfits _
  have hpeek : (c.tape s).peek 0 = move c.map (s.peek 0) := c.peek_tape hfits s.seen_nil (by simp)
  simp only [eval, hpeek]
  cases hs : s.peek 0 with
  | error e =>
      rw [h s e hs]
      exact .same (r := .error e) hfits
  | ok t => exact .allowed (hallow _)

omit [Movable α] in
theorem looksFirst_look (go : Token → Production α) :
  (look .first go).LooksFirst
  := by
  intro s e h
  simp [eval, Lookahead.distance, h]

omit [Movable α] in
theorem looksFirst_fail (cause : Token → Cause) :
  (fail (α := α) cause).LooksFirst
  := by
  intro s e h
  simp [eval, h]

omit [Movable α] [Movable β] in
theorem LooksFirst.bind (h : p.LooksFirst) (g : α → Production β) :
  (p >>= g).LooksFirst
  := by
  intro s e hs
  rw [eval_bind, h s e hs]

end SqlFront.Production
