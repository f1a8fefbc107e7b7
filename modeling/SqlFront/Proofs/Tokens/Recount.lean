import SqlFront.Proofs.Reading.Embedding

/-!
# Counting from another place

Places are counted from the beginning of a text.  The same characters may stand further down, behind
the lines of another text (`Position.below`), or they may be counted from some place within the text
on (`Position.since`).  Then they have the same tokens, at the places that are counted so
(`Cursor.visible_recounts`).
-/

namespace SqlFront

/-! ### Places -/

namespace Position

/-- The function takes the places that are counted from `p` on to those counted from `q` on. -/
structure Recounts (f : Position → Position) (p q : Position) : Prop where
  afterAll_eq (cs : List Char) : f (p.afterAll cs) = q.afterAll cs
  right_eq (cs : List Char) (n : Nat) : f ((p.afterAll cs).right n) = (q.afterAll cs).right n

variable {f : Position → Position} {p q : Position}

theorem Recounts.eq (h : Recounts f p q) :
  f p = q
  := h.afterAll_eq []

theorem Recounts.behind (h : Recounts f p q) (cs : List Char) :
  Recounts f (p.afterAll cs) (q.afterAll cs)
  where
  afterAll_eq ds := by
    rw [← afterAll_append, h.afterAll_eq, afterAll_append]
  right_eq ds n := by
    rw [← afterAll_append, h.right_eq, afterAll_append]

/-- The place in a text that another text precedes, in the whole; the other one ends with a line. -/
def below (text : String) (p : Position) : Position :=
  ⟨p.line + text.toList.count '\n', p.column, p.offset + text.utf8ByteSize⟩

theorem below_after (text : String) (p : Position) (c : Char) :
  below text (p.after c) = (below text p).after c
  := by
  simp only [below, after]
  split <;> simp only [mk.injEq, true_and] <;> omega

theorem below_afterAll (text : String) (p : Position) (cs : List Char) :
  below text (p.afterAll cs) = (below text p).afterAll cs
  := by
  induction cs generalizing p with
  | nil => rfl
  | cons c cs ih => rw [afterAll_cons, ih, below_after, afterAll_cons]

theorem below_right (text : String) (p : Position) (n : Nat) :
  below text (p.right n) = (below text p).right n
  := by
  simp only [below, right, mk.injEq, true_and]
  omega

theorem below_recounts (text : String) (p : Position) :
  Recounts (below text) p (below text p)
  where
  afterAll_eq := below_afterAll text p
  right_eq cs n := by
    rw [below_right, below_afterAll]

/-- The place in a text, counted from the place `q` on: lines from that of `q`, columns on that line
from `q`. -/
def since (q p : Position) : Position where
  line := p.line - q.line + 1
  column := if p.line = q.line then p.column - q.column else p.column
  offset := p.offset - q.offset

/-- The place `p` is not before `q`. -/
structure Behind (q p : Position) : Prop where
  line : q.line ≤ p.line
  column : p.line = q.line → q.column ≤ p.column
  offset : q.offset ≤ p.offset

theorem Behind.after (h : Behind q p) (c : Char) :
  Behind q (p.after c)
  := by
  obtain ⟨hline, hcolumn, hoffset⟩ := h
  unfold Position.after
  split
  · refine ⟨Nat.le_succ_of_le hline, ?_, Nat.le_succ_of_le hoffset⟩
    intro heq
    simp only at heq
    omega
  · exact ⟨hline, fun heq => Nat.le_succ_of_le (hcolumn heq), Nat.le_add_right_of_le hoffset⟩

theorem since_after (h : Behind q p) (c : Char) :
  since q (p.after c) = (since q p).after c
  := by
  obtain ⟨hline, hcolumn, hoffset⟩ := h
  by_cases hc : c = '\n'
  · have hne : p.line + 1 ≠ q.line := by omega
    simp only [since, Position.after, hc, if_true, hne, if_false, mk.injEq, true_and]
    omega
  · simp only [since, Position.after, hc, if_false, mk.injEq, true_and]
    by_cases heq : p.line = q.line
    · have := hcolumn heq
      simp only [heq, if_true]
      omega
    · simp only [heq, if_false, true_and]
      omega

theorem since_right (h : Behind q p) (n : Nat) :
  since q (p.right n) = (since q p).right n
  := by
  obtain ⟨hline, hcolumn, hoffset⟩ := h
  simp only [since, right, mk.injEq, true_and]
  by_cases heq : p.line = q.line
  · have := hcolumn heq
    simp only [heq, if_true]
    omega
  · simp only [heq, if_false, true_and]
    omega

theorem since_afterAll (h : Behind q p) (cs : List Char) :
  Behind q (p.afterAll cs) ∧ since q (p.afterAll cs) = (since q p).afterAll cs
  := by
  induction cs generalizing p with
  | nil => exact ⟨h, rfl⟩
  | cons c cs ih =>
      obtain ⟨hbehind, hsince⟩ := ih (h.after c)
      rw [since_after h] at hsince
      exact ⟨hbehind, hsince⟩

theorem since_self (q : Position) :
  since q q = start
  := by
  simp [since, start]

theorem since_recounts (q : Position) :
  Recounts (since q) q start
  := by
  have hself : Behind q q := ⟨Nat.le_refl _, fun _ => Nat.le_refl _, Nat.le_refl _⟩
  constructor
  · intro cs
    rw [(since_afterAll hself cs).2, since_self]
  · intro cs n
    obtain ⟨hbehind, hsince⟩ := since_afterAll hself cs
    rw [since_right hbehind, hsince, since_self]

end Position

/-! ### Tokens -/

/-- Only strings and bracketed comments without end are faults. -/
theorem Token.cause_of_measure {x : Char} {cs : List Char} {cause : Cause}
    (h : measure x cs = .error cause) :
  cause = .openString ∨ cause = .openComment
  := by
  have hslash : measureSlash cs = .error cause → cause = .openComment := by
    intro h
    unfold measureSlash at h
    split at h
    · contradiction
    · contradiction
    · split at h
      · contradiction
      · exact (Except.error.inj h).symm
    · exact (Except.error.inj h).symm
    · contradiction
  rcases open_of_measure h with ⟨-, -, hcause⟩ | ⟨-, hmeasure⟩
  · exact .inl hcause
  · exact .inr (hslash hmeasure)

namespace Cursor

/-- What is taken from a text that goes on behind the characters that are measured. -/
theorem next_of_measure_append {x : Char} {cs more : List Char} {kind : Kind} (p : Position)
    (h : Token.measure x (cs ++ more) = .ok (kind, cs.length)) :
  next ⟨x :: cs ++ more, p⟩ =
    .ok (⟨kind, Token.textOf kind (x :: cs), p, p.afterAll (x :: cs)⟩, ⟨more, p.afterAll (x :: cs)⟩)
  := by
  have hnext := next_of_measure p h
  have htake : (x :: (cs ++ more)).take (cs.length + 1) = x :: cs := by simp
  have hskip : skip ⟨x :: (cs ++ more), p⟩ (cs.length + 1) = ⟨more, p.afterAll (x :: cs)⟩ := by
    simp [skip]
  rwa [htake, hskip] at hnext

variable {f : Position → Position} {c d : Cursor} {p q : Position} {t : Token} {e : Fault}

/-- The next token is the same where it is counted from another place on, and what is left of the
text too. -/
theorem next_recounts (hf : c.position.Recounts f q) (h : c.next = .ok (t, d)) :
  ∃ q', d.position.Recounts f q' ∧ next ⟨c.rest, q⟩ = .ok (move f t, ⟨d.rest, q'⟩)
  := by
  obtain ⟨cs, p⟩ := c
  cases cs with
  | nil =>
      simp only [next, Except.ok.injEq, Prod.mk.injEq] at h
      obtain ⟨rfl, rfl⟩ := h
      refine ⟨q, hf, ?_⟩
      rw [← hf.eq]
      rfl
  | cons x cs =>
      obtain ⟨kind, n, hfound, rfl, rfl⟩ := next_cons_eq_ok_iff.mp h
      refine ⟨_, hf.behind _, ?_⟩
      rw [next_of_measure q hfound]
      simp only [skip, move, hf.eq, hf.afterAll_eq]

theorem next_recounts_error (hf : c.position.Recounts f q) (h : c.next = .error e) :
  next ⟨c.rest, q⟩ = .error (move f e)
  := by
  obtain ⟨cs, p⟩ := c
  cases cs with
  | nil => contradiction
  | cons x cs =>
      obtain ⟨cause, hfound, rfl⟩ := next_cons_eq_error_iff.mp h
      have hcause : move f cause = cause := by
        rcases Token.cause_of_measure hfound with rfl | rfl <;> rfl
      have hright : f (p.right (openingLength cause)) = q.right (openingLength cause) :=
        hf.right_eq [] _
      refine next_cons_eq_error_iff.mpr ⟨cause, hfound, ?_⟩
      change _ = (⟨move f cause, f p, f (p.right _)⟩ : Fault)
      rw [hcause, hf.eq, hright]

/-- Counted from another place on, a text has the tokens that it has. -/
theorem visible_recounts (hf : c.position.Recounts f q) :
  visible ⟨c.rest, q⟩ = (move f c.visible.1, move f c.visible.2)
  := by
  fun_induction visible c generalizing q with
  | case1 c hc =>
      rw [visible_of_rest_eq_nil (c := ⟨c.rest, q⟩) hc, ← hf.eq]
      rfl
  | case2 c hc e he => exact visible_of_fault (c := ⟨c.rest, q⟩) hc (next_recounts_error hf he)
  | case3 c hc t d hnext ts stop hvisible hhidden ih =>
      obtain ⟨q', hf', hnext'⟩ := next_recounts hf hnext
      rw [visible_of_next (c := ⟨c.rest, q⟩) hc hnext', Token.kind_move,
        if_pos hhidden, ih hf', hvisible]
  | case4 c hc t d hnext ts stop hvisible hhidden ih =>
      obtain ⟨q', hf', hnext'⟩ := next_recounts hf hnext
      rw [visible_of_next (c := ⟨c.rest, q⟩) hc hnext', Token.kind_move,
        if_neg hhidden, ih hf', hvisible]
      rfl

end Cursor

end SqlFront
