import SqlFront.Proofs.Reading.Follows

/-!
# Tapes that begin alike

No decision of a production sees further than two tokens past the next one.  So on tapes that begin
alike a production does the same, as long as what it takes, and two tokens behind that, are alike
(`Production.eval_alike`).  What stands behind may be anything, a fault of the text as well.
-/

namespace SqlFront

namespace Tape

/-- The tapes show the same tokens up to `n` places behind the next one, and the same token was taken
last. -/
structure Alike (n : Nat) (s r : Tape) : Prop where
  last_eq : r.last = s.last
  peek_eq (j : Nat) (hj : j ≤ n) : r.peek j = s.peek j

/-- The token `eof` does not stand on the tape, it is only shown behind it. -/
def Proper (s : Tape) : Prop := ∀ t ∈ s.tokens, t.kind ≠ .eof

variable {n m : Nat} {s r s' : Tape} {t : Token}

theorem proper_ofString (text : String) :
  (ofString text).Proper
  := kind_ne_eof_of_mem_ofString text

theorem Alike.mono (h : s.Alike n r) (hle : m ≤ n) :
  s.Alike m r
  where
  last_eq := h.last_eq
  peek_eq j hj := h.peek_eq j (Nat.le_trans hj hle)

theorem Proper.of_suffix (h : s.Proper) (hsuffix : s'.tokens <:+ s.tokens) :
  s'.Proper
  := fun t ht => h t (hsuffix.subset ht)

/-- Where the end of the text is next, the tape is empty. -/
theorem Proper.next_eof (h : s.Proper) (hpeek : s.peek 0 = .ok t) (ht : t.kind = .eof) :
  s.tokens = [] ∧ s.next = (.ok t, { s with last := t.span })
  := by
  rcases peek_eq_ok_iff.mp hpeek with hget | ⟨hget, p, hstop, rfl⟩
  · exact absurd ht (h t (List.mem_of_getElem? hget))
  · have hnil : s.tokens = [] := by simpa using hget
    use hnil
    rw [next, hnil, hstop]
    rfl

/-- At a fault of the text nothing is taken. -/
theorem next_of_peek_error {e : Fault} (h : s.peek 0 = .error e) :
  s.next = (.error e, s)
  := by
  obtain ⟨hget, hstop⟩ := peek_eq_error_iff.mp h
  have hnil : s.tokens = [] := by simpa using hget
  rw [next, hnil, hstop]

/-- Taking the same token from tapes that begin alike leaves such tapes. -/
theorem Alike.takes {r' : Tape} (h : s.Alike (n + 1) r) (hs : s.Takes [t] s') (hr : r.Takes [t] r') :
  s'.Alike n r'
  where
  last_eq := by rw [hs.last_eq, hr.last_eq, Span.lastOf_cons, Span.lastOf_cons]
  peek_eq j hj := by
    rw [← hs.peek_add, ← hr.peek_add]
    exact h.peek_eq _ (by simpa [Nat.add_comm] using hj)

end Tape

namespace Production

variable {α : Type}

/-- What stands behind the tokens is not changed by a reading. -/
theorem stop_eval (p : Production α) (s : Tape) :
  (p.eval s).2.stop = s.stop
  := by
  induction p generalizing s with
  | done | failLast => rfl
  | look k go ih =>
      simp only [eval]
      cases s.peek k.distance with
      | error e => rfl
      | ok t => apply ih
  | take go ih =>
      obtain ⟨tokens, stop, last⟩ := s
      cases tokens with
      | cons t ts => apply ih t
      | nil =>
          cases stop with
          | error e => rfl
          | ok p => apply ih
  | last go ih => apply ih
  | fail cause =>
      simp only [eval]
      cases s.peek 0 <;> rfl

theorem Reads.stop_eq {p : Production α} {s s' : Tape} {a : α} (h : p.Reads s a s') :
  s'.stop = s.stop
  := by
  rw [← stop_eval p s, h]

/-- On tapes that begin alike, two tokens further than what is taken, a production ends alike. -/
theorem eval_alike (p : Production α) {s r : Tape} (hs : s.Proper) (hr : r.Proper) {k n : Nat}
    (hk : s.tokens.length ≤ (p.eval s).2.tokens.length + k) (h : s.Alike (k + n + 2) r) :
  (p.eval r).1 = (p.eval s).1 ∧ (p.eval s).2.Alike (n + 2) (p.eval r).2
  := by
  induction p generalizing s r k with
  | done a => exact ⟨rfl, h.mono (by omega)⟩
  | look m go ih =>
      have hm : m.distance ≤ 2 := by
        cases m <;> decide
      have hpeek := h.peek_eq m.distance (by omega)
      simp only [eval, hpeek] at hk ⊢
      cases ht : s.peek m.distance with
      | error e => exact ⟨rfl, h.mono (by omega)⟩
      | ok t =>
          rw [ht] at hk
          apply ih t hs hr hk h
  | take go ih =>
      have hpeek := h.peek_eq 0 (Nat.zero_le _)
      cases ht : s.peek 0 with
      | error e =>
          simp only [eval, Tape.next_of_peek_error ht, Tape.next_of_peek_error (hpeek.trans ht)]
          exact ⟨trivial, h.mono (by omega)⟩
      | ok t =>
          by_cases hkind : t.kind = .eof
          · obtain ⟨-, hsnext⟩ := hs.next_eof ht hkind
            obtain ⟨-, hrnext⟩ := hr.next_eof (hpeek.trans ht) hkind
            simp only [eval, hsnext, hrnext] at hk ⊢
            apply ih t (s := { s with last := t.span }) (r := { r with last := t.span }) hs hr hk
            exact ⟨rfl, h.peek_eq⟩
          · obtain ⟨s', hsnext, hstakes⟩ := Tape.next_of_peek ht hkind
            obtain ⟨r', hrnext, hrtakes⟩ := Tape.next_of_peek (hpeek.trans ht) hkind
            simp only [eval, hsnext, hrnext] at hk ⊢
            have hlength := length_eval_le (go t) s'
            have hcons : s.tokens.length = s'.tokens.length + 1 := by
              rw [hstakes.tokens_eq]
              simp
            obtain ⟨k, rfl⟩ : ∃ k', k = k' + 1 := ⟨k - 1, by omega⟩
            apply ih t (hs.of_suffix hstakes.suffix) (hr.of_suffix hrtakes.suffix) (k := k)
            · omega
            · apply Tape.Alike.takes _ hstakes hrtakes
              exact h.mono (by omega)
  | last go ih =>
      simp only [eval, h.last_eq] at hk ⊢
      apply ih _ hs hr hk h
  | fail cause =>
      simp only [eval, h.peek_eq 0 (Nat.zero_le _)]
      cases s.peek 0 <;> exact ⟨rfl, h.mono (by omega)⟩
  | failLast cause =>
      simp only [eval, h.last_eq]
      exact ⟨trivial, h.mono (by omega)⟩

end Production

end SqlFront
