import Mathlib.Data.List.Basic
import SqlFront.Parse
import SqlFront.Token.Complete
import SqlFront.Proofs.Tokens.Measure

/-!
# Tapes

A tape is what a stream amounts to for the grammar: the list of the visible tokens that have not
been taken, what stands behind them, the end of the text or a fault, and the region of the token
that was taken last.  A production run on a stream gives what it gives on the tape of the
stream, and leaves the stream with the tape that it leaves (`Production.run_eq_eval`).  So
everything that is said about productions is said about tapes, that is, about lists of tokens.
-/

namespace SqlFront

/-! ### Results -/

section

variable {ε α β : Type} {f : α → β} {g : α → Except ε β} {r : Except ε α} {b : β} {e : ε}

theorem map_eq_ok_iff :
  r.map f = .ok b ↔ ∃ a, r = .ok a ∧ f a = b
  := by
  cases r <;> simp [Except.map]

theorem map_eq_error_iff :
  r.map f = .error e ↔ r = .error e
  := by
  cases r <;> simp [Except.map]

theorem bind_eq_ok_iff :
  r >>= g = .ok b ↔ ∃ a, r = .ok a ∧ g a = .ok b
  := by
  cases r <;> simp [bind, Except.bind]

theorem bind_eq_error_iff :
  r >>= g = .error e ↔ r = .error e ∨ ∃ a, r = .ok a ∧ g a = .error e
  := by
  cases r <;> simp [bind, Except.bind]

end

/-! ### Visible tokens -/

/-- The visible tokens from a cursor on, and the place where the text ends or the fault that
stands behind them. -/
def Cursor.visible (c : Cursor) : List Token × Except Fault Position :=
  if _hc : c.rest = [] then ([], .ok c.position)
  else
    match _h : c.next with
    | .error e => ([], .error e)
    | .ok (t, d) =>
      let (ts, stop) := visible d
      if t.kind.isHidden then (ts, stop) else (t :: ts, stop)
termination_by c.rest.length
decreasing_by exact length_rest_next _h _hc

/-- At the end of the text nothing more is visible. -/
theorem Cursor.visible_of_rest_eq_nil {c : Cursor} (hc : c.rest = []) :
  c.visible = ([], .ok c.position)
  := by
  rw [visible.eq_def, dif_pos hc]

/-- What is visible begins with the next token, unless that is hidden. -/
theorem Cursor.visible_of_next {c d : Cursor} {t : Token} (hc : c.rest ≠ [])
    (hnext : c.next = .ok (t, d)) :
  c.visible = if t.kind.isHidden then d.visible else (t :: d.visible.1, d.visible.2)
  := by
  rw [visible.eq_def c, dif_neg hc]
  split <;> simp_all

/-- Behind a fault nothing is visible. -/
theorem Cursor.visible_of_fault {c : Cursor} {e : Fault} (hc : c.rest ≠ [])
    (hnext : c.next = .error e) :
  c.visible = ([], .error e)
  := by
  rw [visible.eq_def c, dif_neg hc]
  split <;> simp_all

/-- A token of a text, taken before its end, is not the token `eof`. -/
theorem Cursor.kind_ne_eof_of_next {c d : Cursor} {t : Token}
    (hc : c.rest ≠ []) (h : c.next = .ok (t, d)) :
  t.kind ≠ .eof
  := by
  obtain ⟨_ | ⟨x, cs⟩, p⟩ := c
  · contradiction
  · obtain ⟨kind, n, hmeasure, rfl, -⟩ := next_cons_eq_ok_iff.mp h
    apply Token.kind_ne_eof_of_measure hmeasure

theorem Cursor.kind_ne_eof_of_mem_visible (c : Cursor) :
  ∀ t ∈ c.visible.1, t.kind ≠ .eof
  := by
  fun_induction Cursor.visible c with
  | case1 => simp
  | case2 => simp
  | case3 c hc t d hnext ts stop hvisible hhidden ih =>
      simpa [hvisible] using ih
  | case4 c hc t d hnext ts stop hvisible hhidden ih =>
      intro u hu
      rcases List.mem_cons.mp hu with rfl | hu
      · apply kind_ne_eof_of_next hc hnext
      · apply ih
        rw [hvisible]
        apply hu

/-- Every visible token has a character. -/
theorem Cursor.length_visible_le (c : Cursor) :
  c.visible.1.length ≤ c.rest.length
  := by
  fun_induction Cursor.visible c with
  | case1 | case2 => apply Nat.zero_le
  | case3 c hc t d hnext ts stop hvisible hhidden ih =>
      rw [hvisible] at ih
      exact Nat.le_trans ih (Nat.le_of_lt (length_rest_next hnext hc))
  | case4 c hc t d hnext ts stop hvisible hhidden ih =>
      rw [hvisible] at ih
      exact Nat.lt_of_le_of_lt ih (length_rest_next hnext hc)

/-- Where the text has no fault, its visible tokens are those among all its tokens. -/
theorem Cursor.tokens_of_visible {c : Cursor} {p : Position} (h : c.visible.2 = .ok p) :
  ∃ ts, c.tokens = .ok ts ∧ c.visible.1 = ts.filter (·.isVisible)
  := by
  fun_induction Cursor.tokens c with
  | case1 c hc =>
      use [.eof c.position]
      simp [visible.eq_def c, hc, Token.isVisible, Token.eof]
  | case2 c hc e he => simp [visible_of_fault hc he] at h
  | case3 c hc t d hnext ih =>
      have hvisible := visible_of_next hc hnext
      have hd : d.visible.2 = .ok p := by
        rw [← h, hvisible]
        split <;> rfl
      obtain ⟨ts, hts, hfilter⟩ := ih hd
      use t :: ts
      constructor
      · simp [hts, Except.map]
      · have hkind := kind_ne_eof_of_next hc hnext
        rw [hvisible]
        split <;> simp_all [Token.isVisible]

/-! ### Tapes -/

/-- The visible tokens that have not been taken, what stands behind them, and the region of the
token that was taken last. -/
structure Tape where
  tokens : List Token
  stop : Except Fault Position
  last : Span

namespace Tape

/-- The token `k` places ahead: `eof` past the end, unless a fault stands there. -/
def peek (k : Nat) (s : Tape) : Except Fault Token :=
  match s.tokens[k]? with
  | some t => .ok t
  | none => s.stop.map .eof

/-- Takes the next token; past the end, `eof`. -/
def next (s : Tape) : Except Fault Token × Tape :=
  match s.tokens with
  | t :: ts => (.ok t, { s with tokens := ts, last := t.span })
  | [] =>
    match s.stop with
    | .error e => (.error e, s)
    | .ok p => (.ok (.eof p), { s with last := .point p })

variable {s : Tape} {k : Nat} {t : Token} {e : Fault}

/-- What is looked at is one of the tokens ahead, or the end of the text behind them. -/
theorem peek_eq_ok_iff :
  s.peek k = .ok t ↔ s.tokens[k]? = some t ∨ s.tokens[k]? = none ∧ ∃ p, s.stop = .ok p ∧ .eof p = t
  := by
  unfold peek
  cases s.tokens[k]? with
  | some u => simp
  | none => simp [map_eq_ok_iff]

/-- The fault that is found is the one behind the tokens ahead. -/
theorem peek_eq_error_iff :
  s.peek k = .error e ↔ s.tokens[k]? = none ∧ s.stop = .error e
  := by
  unfold peek
  cases s.tokens[k]? with
  | some u => simp
  | none => simp [map_eq_error_iff]

end Tape

/-- The tape of a stream. -/
def Stream.tape (s : Stream) : Tape :=
  ⟨s.ahead ++ s.cursor.visible.1, s.cursor.visible.2, s.last⟩

namespace Stream

/-- There are fewer tokens than the bound that lists are read with. -/
theorem length_tape_lt (s : Stream) :
  s.tape.tokens.length < s.size + 1
  := by
  have hvisible := s.cursor.length_visible_le
  simp only [tape, size, List.length_append]
  omega

/-- Reading on changes nothing of the tape, and ends with enough tokens ahead, at the end of the
text, or at its fault. -/
theorem demand_spec (n : Nat) (s : Stream) :
  (s.demand n).2.tape = s.tape ∧
    match (s.demand n).1 with
    | none => n ≤ (s.demand n).2.ahead.length ∨ (s.demand n).2.cursor.rest = []
    | some e => (s.demand n).2.ahead.length < n ∧ (s.demand n).2.cursor.visible = ([], .error e)
  := by
  fun_induction Stream.demand n s with
  | case1 s hn => simp [hn]
  | case2 s hn hc => simp [hc]
  | case3 s hn hc e he =>
      have hvisible := Cursor.visible_of_fault hc he
      simp only [true_and]
      exact ⟨by omega, hvisible⟩
  | case4 s hn hc t c hnext hhidden ih =>
      have hvisible : s.cursor.visible = c.visible := by
        rw [Cursor.visible_of_next hc hnext, if_pos hhidden]
      refine ⟨ih.1.trans ?_, ih.2⟩
      simp [tape, hvisible]
  | case5 s hn hc t c hnext hhidden ih =>
      have hvisible : s.cursor.visible = (t :: c.visible.1, c.visible.2) := by
        rw [Cursor.visible_of_next hc hnext, if_neg hhidden]
      refine ⟨ih.1.trans ?_, ih.2⟩
      simp [tape, hvisible]

/-- A stream gives the tokens of its tape. -/
theorem peek_tape (k : Nat) (s : Stream) :
  (s.peek k).1 = s.tape.peek k ∧ (s.peek k).2.tape = s.tape
  := by
  obtain ⟨htape, hend⟩ := demand_spec (k + 1) s
  rw [← htape]
  unfold peek
  generalize s.demand (k + 1) = answer at hend
  rcases answer with ⟨_ | e, s⟩
  · constructor
    · simp only [Tape.peek, tape]
      rcases hend with hlength | hrest
      · simp only at hlength
        rw [List.getElem?_append_left (by omega), List.getElem?_eq_getElem (by omega)]
        rfl
      · simp only at hrest
        simp only [Cursor.visible_of_rest_eq_nil hrest, List.append_nil, Except.map]
        cases s.ahead[k]? <;> rfl
    · rfl
  · obtain ⟨hlength, hvisible⟩ := hend
    simp only at hlength hvisible
    constructor
    · simp only [Tape.peek, tape, hvisible, List.append_nil]
      rw [List.getElem?_eq_none (by omega)]
      rfl
    · rfl

/-- A stream takes the tokens of its tape. -/
theorem next_tape (s : Stream) :
  (s.next.1, s.next.2.tape) = s.tape.next
  := by
  obtain ⟨htape, hend⟩ := demand_spec 1 s
  rw [← htape]
  unfold next
  generalize s.demand 1 = answer at hend
  rcases answer with ⟨_ | e, s⟩
  · simp only [Tape.next, tape]
    cases hahead : s.ahead with
    | nil =>
        rcases hend with hlength | hrest
        · simp [hahead] at hlength
        · simp only at hrest
          simp [Cursor.visible_of_rest_eq_nil hrest]
    | cons t ahead => rfl
  · obtain ⟨hlength, hvisible⟩ := hend
    simp only at hlength hvisible
    have hahead : s.ahead = [] := List.length_eq_zero_iff.mp (by omega)
    simp [Tape.next, tape, hvisible, hahead]

end Stream

/-! ### Productions on tapes -/

namespace Production

/-- Follows the decisions on a tape. -/
def eval {α : Type} (p : Production α) (s : Tape) : Except Fault α × Tape :=
  match p with
  | done a => (.ok a, s)
  | look k go =>
    match s.peek k.distance with
    | .error e => (.error e, s)
    | .ok t => (go t).eval s
  | take go =>
    match s.next with
    | (.error e, s) => (.error e, s)
    | (.ok t, s) => (go t).eval s
  | last go => (go s.last).eval s
  | fail cause =>
    match s.peek 0 with
    | .error e => (.error e, s)
    | .ok t => (.error ⟨cause t, .point t.span.start⟩, s)
  | failLast cause => (.error ⟨cause, s.last⟩, s)

/-- A production gives on a stream what it gives on the tape of the stream. -/
theorem run_eq_eval {α : Type} (p : Production α) (s : Stream) :
  ((p.run s).1, (p.run s).2.tape) = p.eval s.tape
  := by
  induction p generalizing s with
  | done a => rfl
  | look k go ih =>
      obtain ⟨hpeek, htape⟩ := s.peek_tape k.distance
      simp only [run, eval, ← hpeek]
      generalize s.peek k.distance = answer at htape
      rcases answer with ⟨e | t, r⟩
      · simp only at htape
        simp [htape]
      · simp only at htape
        rw [← htape]
        apply ih
  | take go ih =>
      simp only [run, eval, ← s.next_tape]
      rcases s.next with ⟨e | t, r⟩
      · rfl
      · apply ih
  | last go ih => apply ih
  | fail cause =>
      obtain ⟨hpeek, htape⟩ := s.peek_tape 0
      simp only [run, eval, ← hpeek]
      generalize s.peek 0 = answer at htape
      rcases answer with ⟨e | t, r⟩ <;> simp_all
  | failLast cause => rfl

end Production

/-- The tape of a whole text. -/
def Tape.ofString (text : String) : Tape := (Stream.ofString text).tape

/-- The tokens of the tape of a text that is read to its end are the visible ones among all its
tokens. -/
theorem Tape.tokens_ofString {text : String} {p : Position} (h : (ofString text).stop = .ok p) :
  ∃ ts, Token.list text = .ok ts ∧ (ofString text).tokens = ts.filter (·.isVisible)
  := Cursor.tokens_of_visible (c := .ofString text) h

theorem Tape.kind_ne_eof_of_mem_ofString (text : String) :
  ∀ t ∈ (ofString text).tokens, t.kind ≠ .eof
  := Cursor.kind_ne_eof_of_mem_visible (.ofString text)

end SqlFront
