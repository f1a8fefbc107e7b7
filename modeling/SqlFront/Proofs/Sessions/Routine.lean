import SqlFront.Grammar.Nesting
import SqlFront.Proofs.Grammar.Beginnings

/-!
# Sessions and routines

A session is a reading under way: the stream that is read, the number of levels of nesting that are
open, and whether the words of merge clauses are read as words and not as plain names.  A routine
reads in a session and may change all three.  It answers with a value or a fault and with the session
that it leaves, also where it fails.  It answers nothing if it is stuck: when a loop has gone round
without taking a token, or when it would go in deeper than it may.

A production has neither a count nor a flag, its levels lie within each other and its lists have a
bound.  `r.Performs depth words limit p` says that the routine `r` amounts to the production `p`: it
is not stuck, it answers what `p` answers, and the count and the flag are in the end what they were.
-/

namespace SqlFront

/-- A reading under way. -/
structure Session where
  stream : Stream
  depth : Nat
  words : Bool
deriving DecidableEq, Repr

namespace Session

/-- The session that begins on a stream, with no level open and no word read as one. -/
def start (stream : Stream) : Session := ⟨stream, 0, false⟩

/-- The number of visible tokens that have not been taken. -/
def left (s : Session) : Nat := s.stream.tape.tokens.length

end Session

/-- What is done in a session: an answer and the session that is left, or nothing if it is stuck. -/
def Routine (α : Type) : Type := Session → Option (Except Fault α × Session)

namespace Routine

variable {α β σ : Type}

/-- Goes on with `f` where `r` answers with a value. -/
def bind (r : Routine α) (f : α → Routine β) : Routine β := fun s =>
  match r s with
  | none => none
  | some (.error e, s) => some (.error e, s)
  | some (.ok a, s) => f a s

instance : Monad Routine where
  pure a := fun s => some (.ok a, s)
  bind := bind

/-- Runs a production on the stream of the session. -/
def perform (p : Production α) : Routine α := fun s =>
  let (answer, stream) := p.run s.stream
  some (answer, { s with stream })

instance : MonadLift Production Routine where
  monadLift := perform

/-! ### The count and the flag -/

/-- Runs `r` one level further in, unless too many levels are open. -/
def nested (r : Routine α) : Routine α := fun s =>
  if Grammar.maxNesting ≤ s.depth then perform (.fail fun _ => .tooDeep) s
  else
    match r { s with depth := s.depth + 1 } with
    | none => none
    | some (answer, s) => some (answer, { s with depth := s.depth - 1 })

/-- Runs `r` with the flag as given, and sets it back. -/
def withWords (words : Bool) (r : Routine α) : Routine α := fun s =>
  match r { s with words } with
  | none => none
  | some (answer, s') => some (answer, { s' with words := s.words })

/-- Runs `r` if the flag is set, and else answers with `a`. -/
def ifWords (r : Routine α) (a : α) : Routine α := fun s =>
  if s.words then r s else some (.ok a, s)

/-! ### Going round -/

/-- Goes round from `a` until a round answers with a result.  A round that does not and has taken no
token is stuck. -/
def loop (round : σ → Routine (σ ⊕ β)) (a : σ) (s : Session) : Option (Except Fault β × Session) :=
  match round a s with
  | none => none
  | some (.error e, s') => some (.error e, s')
  | some (.ok (.inr b), s') => some (.ok b, s')
  | some (.ok (.inl a'), s') => if s'.left < s.left then loop round a' s' else none
termination_by s.left

/-- The routine that `body` makes of itself.  Where it calls itself without having taken a token it is
stuck. -/
def recur (body : Routine α → Routine α) (s : Session) : Option (Except Fault α × Session) :=
  body (fun s' => if s'.left < s.left then recur body s' else none) s
termination_by s.left

/-- A round of a list: an entry more, or the end of the list. -/
def entryRound (entry : Routine (Option α)) (found : List α) : Routine (List α ⊕ List α) := do
  match ← entry with
  | some a => return .inl (a :: found)
  | none => return .inr found.reverse

/-- The entries that `entry` yields until it yields none. -/
def collect (entry : Routine (Option α)) : Routine (List α) := loop (entryRound entry) []

/-- Reads `r` if the next token is of kind `k`, which is taken. -/
def afterToken? (k : Kind) (r : Routine α) : Routine (Option α) := do
  if ← Production.accept k then some <$> r else return none

/-- One entry and further entries, each after a comma. -/
def commaList (entry : Routine α) : Routine (List α) := do
  let first ← entry
  let further ← collect (afterToken? .comma entry)
  return first :: further

/-! ### Routines and productions -/

/-- On the streams whose tapes satisfy `P`, and with the count and the flag as given, the routine
answers what the production answers and leaves the count and the flag as they were. -/
def PerformsOn (r : Routine α) (depth : Nat) (words : Bool) (P : Tape → Prop) (p : Production α) :
    Prop :=
  ∀ stream : Stream, P stream.tape →
    r ⟨stream, depth, words⟩ = some ((p.run stream).1, ⟨(p.run stream).2, depth, words⟩)

/-- The routine amounts to the production where fewer tokens are left than the limit. -/
abbrev Performs (r : Routine α) (depth : Nat) (words : Bool) (limit : Nat) (p : Production α) : Prop :=
  r.PerformsOn depth words (fun s => s.tokens.length < limit) p

end Routine

namespace Production

variable {α β σ : Type}

theorem run_bind (p : Production α) (f : α → Production β) (s : Stream) :
  (p >>= f).run s =
    match p.run s with
    | (.ok a, s) => (f a).run s
    | (.error e, s) => (.error e, s)
  := by
  change (p.bind f).run s = _
  induction p generalizing s with
  | done a => rfl
  | look k go ih =>
      simp only [bind, run]
      rcases s.peek k.distance with ⟨e | t, s⟩
      · rfl
      · apply ih
  | take go ih =>
      simp only [bind, run]
      rcases s.next with ⟨e | t, s⟩
      · rfl
      · apply ih
  | last go ih => apply ih
  | fail cause =>
      simp only [bind, run]
      rcases s.peek 0 with ⟨e | t, s⟩ <;> rfl
  | failLast cause => rfl

theorem reads_of_run {p : Production α} {s s' : Stream} {a : α} (h : p.run s = (.ok a, s')) :
  p.Reads s.tape a s'.tape
  := by
  rw [Reads, ← run_eq_eval, h]

/-- Whatever follows, a token is taken where it has been looked at. -/
theorem length_lt_of_advance {s s' : Tape} {t : Token} {g : Token → Production α} {a : α}
    (ht : s.peek 0 = .ok t) (hkind : t.kind ≠ .eof) (h : (advance >>= g).Reads s a s') :
  s'.tokens.length < s.tokens.length
  := by
  obtain ⟨u, m, hadvance, hrest⟩ := reads_bind.mp h
  obtain ⟨-, htakes⟩ := takes_of_advance ht hkind hadvance
  exact hrest.length_lt_of_takes htakes

/-- Whenever the production goes round, it has taken a token. -/
def Advances (p : Production (σ ⊕ β)) : Prop :=
  ∀ s a s', p.Reads s (.inl a) s' → s'.tokens.length < s.tokens.length

end Production

namespace Routine

variable {α β σ : Type} {depth limit limit' : Nat} {words : Bool} {P Q : Tape → Prop}
  {r r' : Routine α} {p p' : Production α} {f : α → Routine β} {g : α → Production β}

theorem PerformsOn.mono (h : r.PerformsOn depth words P p) (hQ : ∀ s, Q s → P s) :
  r.PerformsOn depth words Q p
  := fun stream hstream => h stream (hQ _ hstream)

theorem Performs.mono (h : r.Performs depth words limit p) (hle : limit' ≤ limit) :
  r.Performs depth words limit' p
  := PerformsOn.mono h fun _ hs => Nat.lt_of_lt_of_le hs hle

/-- A routine may be taken apart while the production is set aside. -/
theorem PerformsOn.of_forall_eq (h : ∀ q, q = p → r.PerformsOn depth words P q) :
  r.PerformsOn depth words P p
  := h p rfl

theorem performs_pure (a : α) :
  (pure a : Routine α).PerformsOn depth words P (pure a)
  := fun _ _ => rfl

/-- A production that is run is performed. -/
theorem performs_lift (p : Production α) :
  (liftM p : Routine α).PerformsOn depth words P p
  := fun _ _ => rfl

/-- What goes on may be compared for the tapes only that the first part leaves. -/
theorem PerformsOn.bind (h : r.PerformsOn depth words P p)
    (hf : ∀ a, (f a).PerformsOn depth words (fun m => ∃ s, P s ∧ p.Reads s a m) (g a)) :
  (r >>= f).PerformsOn depth words P (p >>= g)
  := by
  intro stream hstream
  change Routine.bind r f _ = _
  rw [Routine.bind, h stream hstream, Production.run_bind]
  rcases hrun : p.run stream with ⟨e | a, stream'⟩
  · rfl
  · apply hf a stream'
    exact ⟨stream.tape, hstream, Production.reads_of_run hrun⟩

theorem Performs.bind (h : r.Performs depth words limit p)
    (hf : ∀ a, (f a).Performs depth words limit (g a)) :
  (r >>= f).Performs depth words limit (p >>= g)
  := by
  apply PerformsOn.bind h
  intro a
  apply PerformsOn.mono (hf a)
  rintro m ⟨s, hs, hreads⟩
  exact Nat.lt_of_le_of_lt hreads.length_le hs

/-- A production that is run first. -/
theorem performs_lift_bind {q : Production β} {f : β → Routine α} {g : β → Production α}
    (h : ∀ b, (f b).Performs depth words limit (g b)) :
  ((liftM q : Routine β) >>= f).Performs depth words limit (q >>= g)
  := Performs.bind (performs_lift q) h

/-- What goes on from a value that is known. -/
theorem PerformsOn.bind_pure {a : α} {q : Production β} (h : r.PerformsOn depth words P (pure a))
    (hf : (f a).PerformsOn depth words P q) :
  (r >>= f).PerformsOn depth words P q
  := by
  intro stream hstream
  change Routine.bind r f _ = _
  rw [Routine.bind, h stream hstream]
  apply hf stream hstream

/-- What has failed does not go on. -/
theorem PerformsOn.bind_fail {cause : Token → Cause}
    (h : r.PerformsOn depth words P (.fail cause)) (f : α → Routine β) :
  (r >>= f).PerformsOn depth words P (.fail cause)
  := by
  intro stream hstream
  change Routine.bind r f _ = _
  simp only [Routine.bind, h stream hstream, Production.run]
  rcases stream.peek 0 with ⟨e | t, stream'⟩ <;> rfl

theorem Performs.map (h : r.Performs depth words limit p) (f : α → β) :
  (f <$> r).Performs depth words limit (f <$> p)
  := by
  apply Performs.bind h
  intro a
  apply performs_pure

theorem performs_ite {b : Prop} [Decidable b] (h : r.PerformsOn depth words P p)
    (h' : r'.PerformsOn depth words P p') :
  (if b then r else r').PerformsOn depth words P (if b then p else p')
  := by
  split
  · apply h
  · apply h'

/-- A choice by what has been found out. -/
theorem Performs.bind_ite {b : Routine Bool} {q : Production Bool}
    (hb : b.Performs depth words limit q) (h : r.Performs depth words limit p)
    (h' : r'.Performs depth words limit p') :
  (b >>= fun a => if a then r else r').Performs depth words limit
    (q >>= fun a => if a then p else p')
  := by
  apply Performs.bind hb
  intro a
  apply performs_ite h h'

/-! ### Tokens that have been looked at -/

/-- Where the next token is of the kind that is asked for, it has been looked at. -/
theorem performs_nextIs_bind_ite {k : Kind}
    (h : r.PerformsOn depth words (fun s => s.tokens.length < limit ∧ s.Seen [k]) p)
    (h' : r'.Performs depth words limit p') :
  Performs (liftM (Production.nextIs k) >>= fun b => if b then r else r') depth words limit
    (Production.nextIs k >>= fun b => if b then p else p')
  := by
  apply PerformsOn.bind (performs_lift _)
  intro b
  cases b with
  | true =>
      apply PerformsOn.mono h
      rintro m ⟨s, hs, hreads⟩
      obtain ⟨⟨t, ht, hkind⟩, rfl⟩ := Production.reads_nextIs.mp hreads
      refine ⟨hs, ?_⟩
      rw [← of_decide_eq_true hkind.symm]
      exact (Tape.seen_nil _).concat ht
  | false =>
      apply PerformsOn.mono h'
      rintro m ⟨s, hs, hreads⟩
      exact Nat.lt_of_le_of_lt hreads.length_le hs

/-- Looking leaves the tape as it is. -/
theorem performs_peekAt_bind {k : Lookahead} {f : Token → Routine α} {g : Token → Production α}
    (h : ∀ t, (f t).PerformsOn depth words P (g t)) :
  PerformsOn (liftM (Production.peekAt k) >>= f) depth words P (Production.peekAt k >>= g)
  := by
  apply PerformsOn.bind (performs_lift _)
  intro t
  apply PerformsOn.mono (h t)
  rintro m ⟨s, hs, hreads⟩
  obtain ⟨-, rfl⟩ := Production.reads_peekAt.mp hreads
  exact hs

/-- A token that has been looked at is taken, so that there are fewer behind it. -/
theorem performs_advance_bind {k : Kind} (hk : k ≠ .eof) {f : Token → Routine α}
    {g : Token → Production α} (h : ∀ t, (f t).Performs depth words limit (g t)) :
  PerformsOn (liftM Production.advance >>= f) depth words
    (fun s => s.tokens.length < limit + 1 ∧ s.Seen [k]) (Production.advance >>= g)
  := by
  apply PerformsOn.bind (performs_lift _)
  intro t
  apply PerformsOn.mono (h t)
  rintro m ⟨s, ⟨hlength, hseen⟩, hreads⟩
  obtain ⟨u, hu, rfl⟩ := hseen 0 k rfl
  obtain ⟨-, htakes⟩ := Production.takes_of_advance hu hk hreads
  rw [htakes.tokens_eq] at hlength
  exact Nat.lt_of_succ_lt_succ hlength

/-! ### The count and the flag -/

/-- One level further in. -/
theorem Performs.nested (hdepth : depth < Grammar.maxNesting)
    (h : r.Performs (depth + 1) words limit p) :
  r.nested.Performs depth words limit p
  := by
  intro stream hstream
  simp only [Routine.nested, Nat.not_le.mpr hdepth, if_false, h stream hstream]
  rfl

/-- At the deepest level nothing goes further in. -/
theorem performs_nested_tooDeep (hdepth : Grammar.maxNesting ≤ depth) :
  r.nested.PerformsOn depth words P (.fail fun _ => .tooDeep)
  := by
  intro stream hstream
  simp only [Routine.nested, hdepth, if_true]
  rfl

theorem Performs.withWords {words' : Bool} (h : r.Performs depth words' limit p) :
  (withWords words' r).Performs depth words limit p
  := by
  intro stream hstream
  simp only [Routine.withWords, h stream hstream]

theorem performs_ifWords_true {a : α} (h : r.PerformsOn depth true P p) :
  (ifWords r a).PerformsOn depth true P p
  := h

theorem performs_ifWords_false {a : α} :
  (ifWords r a).PerformsOn depth false P (pure a)
  := fun _ _ => rfl

/-! ### Going round -/

/-- A loop whose rounds take tokens ends within as many rounds as there are tokens left: it amounts to
the production that goes round so many times at most. -/
theorem Performs.loop {round : σ → Routine (σ ⊕ β)} {roundOf : σ → Production (σ ⊕ β)}
    {rounds : Nat → σ → Production β}
    (h : ∀ a, (round a).Performs depth words limit (roundOf a))
    (hadvances : ∀ a, (roundOf a).Advances)
    (hrounds : ∀ n a, rounds (n + 1) a = roundOf a >>= Sum.elim (rounds n) pure) {n : Nat}
    (hn : limit ≤ n) (a : σ) :
  Performs (Routine.loop round a) depth words limit (rounds n a)
  := by
  induction n generalizing limit a with
  | zero =>
      intro stream hstream
      omega
  | succ n ih =>
      intro stream hstream
      rw [Routine.loop, h a stream hstream, hrounds, Production.run_bind]
      rcases hrun : (roundOf a).run stream with ⟨e | a' | b, stream'⟩
      · rfl
      · have hlt := hadvances a _ a' _ (Production.reads_of_run hrun)
        have hless : ∀ a, (round a).Performs depth words (limit - 1) (roundOf a) :=
          fun a => (h a).mono (Nat.sub_le limit 1)
        simp only [Session.left, hlt, if_true]
        apply ih hless (by omega) a' stream'
        omega
      · rfl

/-- A routine that calls itself behind tokens it has taken amounts to the production that does so as
often as there are tokens left. -/
theorem Performs.recur {body : Routine α → Routine α} {calls : Nat → Production α}
    (h : ∀ m n (r : Routine α), m < limit → r.Performs depth words m (calls n) →
      (body r).Performs depth words (m + 1) (calls (n + 1))) {n : Nat} (hn : limit ≤ n) :
  Performs (Routine.recur body) depth words limit (calls n)
  := by
  induction n generalizing limit with
  | zero =>
      intro stream hstream
      omega
  | succ n ih =>
      intro stream hstream
      rw [Routine.recur]
      apply h stream.tape.tokens.length n _ hstream _ stream (Nat.lt_succ_self _)
      intro stream' hstream'
      simp only [Session.left, hstream', if_true]
      apply ih _ (by omega) stream' hstream'
      intro m n r hm
      apply h m n r (Nat.lt_trans hm hstream)

/-! ### Lists -/

/-- A round of a list, as a production. -/
def entryRoundOf (entry : Production (Option α)) (found : List α) :
    Production (List α ⊕ List α) := do
  match ← entry with
  | some a => return .inl (a :: found)
  | none => return .inr found.reverse

theorem collect_succ (entry : Production (Option α)) (n : Nat) (found : List α) :
  Production.collect entry (n + 1) found =
    entryRoundOf entry found >>= Sum.elim (Production.collect entry n) pure
  := by
  rw [entryRoundOf, Production.bind_assoc]
  apply congrArg (entry >>= ·)
  funext o
  cases o <;> rfl

theorem entryRoundOf_advances {entry : Production (Option α)} (h : entry.Progresses)
    (found : List α) :
  (entryRoundOf entry found).Advances
  := by
  intro s a s' hreads
  obtain ⟨o, m, hentry, hrest⟩ := Production.reads_bind.mp hreads
  cases o with
  | none => simp at hrest
  | some b =>
      obtain ⟨-, rfl⟩ := Production.reads_pure.mp hrest
      apply h s b s' hentry

theorem entryRound_performs {entry : Routine (Option α)} {entry' : Production (Option α)}
    (h : entry.Performs depth words limit entry') (found : List α) :
  (entryRound entry found).Performs depth words limit (entryRoundOf entry' found)
  := by
  apply h.bind
  intro o
  cases o <;> apply performs_pure

theorem Performs.collect {entry : Routine (Option α)} {entry' : Production (Option α)}
    (h : entry.Performs depth words limit entry') (hentry : entry'.Progresses) {n : Nat}
    (hn : limit ≤ n) :
  (collect entry).Performs depth words limit (Production.collect entry' n [])
  := Performs.loop (fun found => entryRound_performs h found) (entryRoundOf_advances hentry)
    (collect_succ entry') hn []

theorem Performs.afterToken? (h : r.Performs depth words limit p) (k : Kind) :
  (afterToken? k r).Performs depth words limit (Production.afterToken? k p)
  := by
  apply Performs.bind_ite (performs_lift _) (h.map some)
  apply performs_pure

theorem Performs.commaList (h : r.Performs depth words limit p) {n : Nat} (hn : limit ≤ n) :
  (commaList r).Performs depth words limit (Production.commaList n p)
  := by
  apply h.bind
  intro first
  have hentries := (h.afterToken? .comma).collect (Production.afterToken?_progresses (by simp) p) hn
  apply hentries.bind
  intro further
  apply performs_pure

end Routine

end SqlFront
