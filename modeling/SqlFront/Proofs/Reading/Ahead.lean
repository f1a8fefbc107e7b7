import SqlFront.Proofs.Reading.Alike

/-!
# What is ahead

Where a text ends behind its tokens, one can look at any place ahead (`Tape.exists_peek`).  With a
fault behind the tokens a production reports this fault, or it yields what it yields where the text
ends there (`Production.fault_or_reads`).
-/

namespace SqlFront

/-! ### Kinds ahead -/

namespace Token

/-- The kind of the token `k` places ahead; `eof` past the end. -/
def kindAt (ts : List Token) (k : Nat) : Kind := (ts[k]?.map (·.kind)).getD .eof

variable {t : Token} {ts : List Token} {k : Nat}

@[simp]
theorem kindAt_nil (k : Nat) :
  kindAt [] k = .eof
  := rfl

@[simp]
theorem kindAt_cons_zero (t : Token) (ts : List Token) :
  kindAt (t :: ts) 0 = t.kind
  := rfl

@[simp]
theorem kindAt_cons_succ (t : Token) (ts : List Token) (k : Nat) :
  kindAt (t :: ts) (k + 1) = kindAt ts k
  := by
  simp [kindAt]

/-- A kind other than `eof` ahead is that of a token. -/
theorem exists_cons_of_kindAt (h : kindAt ts 0 ≠ .eof) :
  ∃ t more, ts = t :: more
  := by
  cases ts with
  | nil => contradiction
  | cons t more => exact ⟨t, more, rfl⟩

end Token

/-- Where the text ends behind the tokens, one can look at any place. -/
theorem Tape.exists_peek {s : Tape} {p : Position} (hstop : s.stop = .ok p) (k : Nat) :
  ∃ t, s.peek k = .ok t ∧ t.kind = Token.kindAt s.tokens k
  := by
  rw [peek, Token.kindAt]
  cases hk : s.tokens[k]? with
  | none => exact ⟨.eof p, by rw [hstop]; rfl, rfl⟩
  | some t => exact ⟨t, rfl, rfl⟩

/-! ### Tapes and streams -/

namespace Production

variable {α : Type} {s : Tape} {rest : List Token}

theorem reads_second {t : Token} (h : s.peek 1 = .ok t) :
  (peekAt .second).Reads s t s
  := reads_peekAt.mpr ⟨h, rfl⟩

/-- What a production yields on a stream and leaves of the tokens is seen on the tape. -/
theorem exists_run_iff {q : Production α} {s : Stream} {a : α} :
  (∃ s', q.run s = (.ok a, s') ∧ s'.tape.tokens = rest) ↔
    ∃ m, q.Reads s.tape a m ∧ m.tokens = rest
  := by
  have heval := q.run_eq_eval s
  constructor
  · rintro ⟨s', hrun, hrest⟩
    rw [hrun] at heval
    exact ⟨s'.tape, heval.symm, hrest⟩
  · rintro ⟨m, hreads, hrest⟩
    obtain ⟨hvalue, htape⟩ := Prod.mk.inj (heval.trans hreads)
    refine ⟨(q.run s).2, Prod.ext hvalue rfl, ?_⟩
    rw [htape]
    exact hrest

/-! ### Faults behind the tokens -/

/-- With a fault behind the tokens a production ends with it, or it does what it does where the text
ends there. -/
theorem eval_fault (p : Production α) (e : Fault) (q : Position)
    (ts : List Token) (a : Span) :
  (p.eval ⟨ts, .error e, a⟩).1 = .error e ∨
    ∃ o ts' a', p.eval ⟨ts, .error e, a⟩ = (o, ⟨ts', .error e, a'⟩) ∧
      p.eval ⟨ts, .ok q, a⟩ = (o, ⟨ts', .ok q, a'⟩)
  := by
  induction p generalizing ts a with
  | done b =>
      right
      exact ⟨_, _, _, rfl, rfl⟩
  | look k go ih =>
      simp only [eval, Tape.peek]
      cases ts[k.distance]? with
      | none =>
          left
          rfl
      | some t => apply ih
  | take go ih =>
      cases ts with
      | nil =>
          left
          rfl
      | cons t ts => apply ih t
  | last go ih => apply ih
  | fail cause =>
      simp only [eval, Tape.peek]
      cases ts[0]? with
      | none =>
          left
          rfl
      | some t =>
          right
          exact ⟨_, _, _, rfl, rfl⟩
  | failLast cause =>
      right
      exact ⟨_, _, _, rfl, rfl⟩

/-- Either the fault behind the tokens is reported, or the production yields what it yields where the
text ends behind them. -/
theorem fault_or_reads (q : Production α) (s : Tape) :
  (∃ e, s.stop = .error e ∧ (q.eval s).1 = .error e) ∨
    ∃ p, ∀ a rest, (∃ m, q.Reads s a m ∧ m.tokens = rest) ↔
      ∃ m, q.Reads ⟨s.tokens, .ok p, s.last⟩ a m ∧ m.tokens = rest
  := by
  obtain ⟨ts, stop, last⟩ := s
  cases stop with
  | ok p =>
      right
      exact ⟨p, fun a rest => Iff.rfl⟩
  | error e =>
      rcases q.eval_fault e .start ts last with hfault | ⟨o, ts', last', heval, heval'⟩
      · left
        exact ⟨e, rfl, hfault⟩
      · right
        use .start
        intro a rest
        simp only [Reads, heval, heval', Prod.mk.injEq]
        constructor
        · rintro ⟨m, ⟨rfl, rfl⟩, hrest⟩
          exact ⟨_, ⟨rfl, rfl⟩, hrest⟩
        · rintro ⟨m, ⟨rfl, rfl⟩, hrest⟩
          exact ⟨_, ⟨rfl, rfl⟩, hrest⟩

end Production

end SqlFront
