import SqlFront.Proofs.Grammar.StatementFollows

/-!
# How statements begin

The region of the token that was taken last ends the regions of trees, so a statement takes a token
before it asks for that region.  What was taken before the statement has no part in it: scripts give
the same wherever they begin (`Grammar.statements_eval_last`).
-/

namespace SqlFront

theorem Production.bind_assoc {α β γ : Type} (p : Production α) (f : α → Production β)
    (g : β → Production γ) :
  (p >>= f >>= g) = p >>= fun a => f a >>= g
  := by
  change (p.bind f).bind g = p.bind fun a => (f a).bind g
  induction p with
  | done | fail | failLast => rfl
  | look k go ih => exact congrArg (look k) (funext ih)
  | take go ih => exact congrArg take (funext ih)
  | last go ih => exact congrArg last (funext ih)

/-! ### Taking first -/

namespace Tape

variable (s : Tape) (a : Span)

/-- The tape with another token taken last. -/
def behind : Tape := { s with last := a }

@[simp]
theorem peek_behind (k : Nat) :
  (s.behind a).peek k = s.peek k
  := rfl

theorem next_behind :
  (s.behind a).next = s.next ∨ ∃ e, s.next = (.error e, s) ∧ (s.behind a).next = (.error e, s.behind a)
  := by
  obtain ⟨tokens, stop, last⟩ := s
  cases tokens with
  | cons t ts => exact .inl rfl
  | nil =>
      cases stop with
      | ok p => exact .inl rfl
      | error e => exact .inr ⟨e, rfl, rfl⟩

end Tape

namespace Production

variable {α β : Type} {s : Tape} {p : Production α} {k : Kind}

/-- On the tape, the production takes a token before it ends with a value or asks for the token that
was taken last: what that was makes no difference. -/
def TakesFirst (p : Production α) (s : Tape) : Prop :=
  ∀ a, p.eval (s.behind a) = p.eval s ∨
    ∃ e, p.eval s = (.error e, s) ∧ p.eval (s.behind a) = (.error e, s.behind a)

theorem TakesFirst.eval_behind (h : p.TakesFirst s) (a : Span) :
  (p.eval (s.behind a)).1 = (p.eval s).1
  := by
  rcases h a with heq | ⟨e, heq, hbehind⟩
  · rw [heq]
  · rw [heq, hbehind]

/-- Whatever follows, the token has been taken. -/
theorem TakesFirst.bind (h : p.TakesFirst s) (g : α → Production β) :
  (p >>= g).TakesFirst s
  := by
  intro a
  rw [eval_bind, eval_bind]
  rcases h a with heq | ⟨e, heq, hbehind⟩
  · left
    rw [heq]
  · right
    use e
    rw [heq, hbehind]
    exact ⟨rfl, rfl⟩

theorem takesFirst_look {m : Lookahead} {go : Token → Production α}
    (h : ∀ t, s.peek m.distance = .ok t → (go t).TakesFirst s) :
  (look m go).TakesFirst s
  := by
  intro a
  simp only [eval, Tape.peek_behind]
  cases ht : s.peek m.distance with
  | error e => exact .inr ⟨e, rfl, rfl⟩
  | ok t => apply h t ht a

theorem takesFirst_take (go : Token → Production α) :
  (take go).TakesFirst s
  := by
  intro a
  simp only [eval]
  rcases s.next_behind a with heq | ⟨e, heq, hbehind⟩
  · left
    rw [heq]
  · right
    use e
    rw [heq, hbehind]
    exact ⟨rfl, rfl⟩

theorem takesFirst_fail (cause : Token → Cause) :
  (fail (α := α) cause).TakesFirst s
  := by
  intro a
  right
  simp only [eval, Tape.peek_behind]
  cases s.peek 0 with
  | error e => exact ⟨e, rfl, rfl⟩
  | ok t => exact ⟨_, rfl, rfl⟩

theorem takesFirst_ite {b : Prop} [Decidable b] {q : Production α} (hp : p.TakesFirst s)
    (hq : q.TakesFirst s) :
  (if b then p else q).TakesFirst s
  := by
  split
  · apply hp
  · apply hq

theorem takesFirst_expect (k : Kind) :
  (expect k).TakesFirst s
  := takesFirst_look fun _ _ => takesFirst_ite (takesFirst_take _) (takesFirst_fail _)

theorem takesFirst_peek_bind {g : Token → Production α}
    (h : ∀ t, s.peek 0 = .ok t → (g t).TakesFirst s) :
  (peek >>= g).TakesFirst s
  := takesFirst_look h

theorem takesFirst_here_bind {g : Position → Production α} (h : ∀ p, (g p).TakesFirst s) :
  (here >>= g).TakesFirst s
  := takesFirst_look fun t _ => h t.span.start

/-- What goes on if the token is not there takes another one first. -/
theorem takesFirst_accept_bind {g : Bool → Production α} (h : (g false).TakesFirst s) :
  (accept k >>= g).TakesFirst s
  := by
  rw [accept_bind]
  exact takesFirst_look fun _ _ => takesFirst_ite (takesFirst_take _) h

end Production

namespace Grammar

open Production

variable {s : Tape} (inner : Inner)

/-! ### Queries -/

theorem select_takesFirst :
  (select inner).TakesFirst s
  := takesFirst_here_bind fun _ => (takesFirst_expect _).bind _

theorem simpleBody_takesFirst :
  (simpleBody inner).TakesFirst s
  := by
  apply takesFirst_peek_bind
  intro t _
  split
  · apply (select_takesFirst inner).bind
  · apply takesFirst_take
  · apply takesFirst_take
  · apply takesFirst_take
  · apply takesFirst_fail

theorem combined_takesFirst {bound : Nat} {op? : Kind → Option SetOp} {operand : Production Body}
    (h : operand.TakesFirst s) :
  (combined bound op? operand).TakesFirst s
  := takesFirst_here_bind fun _ => h.bind _

theorem body_takesFirst :
  (body inner).TakesFirst s
  := combined_takesFirst (combined_takesFirst (simpleBody_takesFirst inner))

theorem namedQueries_bind_takesFirst {α : Type} {g : List NamedQuery → Production α}
    (h : (g []).TakesFirst s) :
  (namedQueries inner >>= g).TakesFirst s
  := by
  rw [namedQueries, bind_assoc]
  exact takesFirst_accept_bind h

/-- A query takes a token before its body or the first one of that. -/
theorem query_takesFirst :
  (query inner).TakesFirst s
  := by
  apply takesFirst_here_bind
  intro start
  apply namedQueries_bind_takesFirst
  intro named
  apply (body_takesFirst inner).bind

/-! ### Statements -/

theorem merge_takesFirst :
  (merge inner).TakesFirst s
  := takesFirst_here_bind fun _ => (takesFirst_expect _).bind _

theorem load_takesFirst (bound : Nat) :
  (load bound).TakesFirst s
  := takesFirst_here_bind fun _ => (takesFirst_expect _).bind _

theorem exportRows_takesFirst :
  (exportRows inner).TakesFirst s
  := takesFirst_here_bind fun _ => (takesFirst_expect _).bind _

/-- Tokens that are taken verbatim begin with one that does not end them. -/
theorem verbatim_takesFirst (bound : Nat) {t : Token} (ht : s.peek 0 = .ok t) (heof : t.kind ≠ .eof)
    (hsemicolon : t.kind ≠ .semicolon) :
  (verbatim bound).TakesFirst s
  := by
  have hbalanced : (balanced bound 0 []).TakesFirst s := by
    cases bound with
    | zero => apply takesFirst_fail
    | succ n =>
        apply takesFirst_peek_bind
        intro u hu
        obtain rfl : t = u := Except.ok.inj (ht.symm.trans hu)
        split
        · contradiction
        · apply takesFirst_fail
        · contradiction
        · apply takesFirst_fail
        · apply takesFirst_fail
        · apply takesFirst_take
        · apply takesFirst_take
        · apply takesFirst_take
  exact takesFirst_peek_bind fun _ _ => hbalanced.bind _

variable {inner}

/-- Every statement takes a token first. -/
theorem statement_takesFirst (hquery : inner.query.TakesFirst s) :
  (statement inner).TakesFirst s
  := by
  apply takesFirst_peek_bind
  intro t ht
  have hverbatim : t.kind ≠ .eof → t.kind ≠ .semicolon →
      (do return .verbatim (← verbatim inner.bound) : Production Statement).TakesFirst s :=
    fun heof hsemicolon => (verbatim_takesFirst inner.bound ht heof hsemicolon).bind _
  split
  · apply (merge_takesFirst inner).bind
  · apply (load_takesFirst inner.bound).bind
  · apply (exportRows_takesFirst inner).bind
  · apply hquery.bind
  · apply hquery.bind
  · apply hquery.bind
  · apply hquery.bind
  · apply hquery.bind
  · next hkind => apply hverbatim (by simp [hkind]) (by simp [hkind])
  · next hkind => apply hverbatim (by simp [hkind]) (by simp [hkind])
  · next hkind => apply hverbatim (by simp [hkind]) (by simp [hkind])
  · next hkind => apply hverbatim (by simp [hkind]) (by simp [hkind])
  · apply takesFirst_fail

end Grammar

end SqlFront
