import SqlFront.Proofs.Reading.Tape

/-!
# Streams as lists

A stream answers every sequence of calls as the plain list of the tokens of its text does
(`Stream.calls_refine`).  Of what happens to a text it is enough to know how many visible tokens
have been taken, how many have been demanded, and where the token given last ends.  From the number
demanded it can be told which hidden tokens have been set aside: those of the shortest beginning of
the text that holds so many visible ones.
-/

namespace SqlFront

/-! ### The tokens of a text -/

/-- The tokens of a text before its end or its first fault, hidden ones included, and what stands
behind them: the place where the text ends or the fault. -/
structure Transcript where
  tokens : List Token
  stop : Except Fault Position

/-- The tokens from a cursor on. -/
def Cursor.transcript (c : Cursor) : Transcript :=
  if _hc : c.rest = [] then ⟨[], .ok c.position⟩
  else
    match _h : c.next with
    | .error e => ⟨[], .error e⟩
    | .ok (t, d) =>
      let others := transcript d
      ⟨t :: others.tokens, others.stop⟩
termination_by c.rest.length
decreasing_by exact length_rest_next _h _hc

namespace Transcript

/-- The tokens of a text. -/
def ofString (text : String) : Transcript := (Cursor.ofString text).transcript

/-- The visible tokens. -/
def visible (l : Transcript) : List Token := l.tokens.filter (!·.kind.isHidden)

/-- The visible token number `i`, counted from zero; behind them stands `eof` or the fault. -/
def get (l : Transcript) (i : Nat) : Except Fault Token :=
  match l.visible[i]? with
  | some t => .ok t
  | none => l.stop.map .eof

/-- The shortest beginning of a list of tokens that holds `n` visible ones; all tokens, if fewer
are visible. -/
def reach : Nat → List Token → List Token
  | 0, _ => []
  | _ + 1, [] => []
  | n + 1, t :: ts => t :: reach (if t.kind.isHidden then n + 1 else n) ts

/-- The hidden tokens before the last of the first `n` visible ones; all, if fewer are visible. -/
def hiddenBefore (l : Transcript) (n : Nat) : List Token :=
  (reach n l.tokens).filter (·.kind.isHidden)

end Transcript

/-! ### Calls -/

/-- What a stream can be asked. -/
inductive Call where
  | peek (k : Nat)
  | peekKind (k : Nat)
  | next
  | isAtEnd

/-- What a stream answers. -/
inductive Answer where
  | token (answer : Except Fault Token)
  | kind (answer : Except Fault Kind)
  | atEnd (answer : Except Fault Bool)

namespace Stream

/-- The answer to a call. -/
def call (s : Stream) : Call → Answer × Stream
  | .peek k =>
    let (answer, s) := s.peek k
    (.token answer, s)
  | .peekKind k =>
    let (answer, s) := s.peekKind k
    (.kind answer, s)
  | .next =>
    let (answer, s) := s.next
    (.token answer, s)
  | .isAtEnd =>
    let (answer, s) := s.isAtEnd
    (.atEnd answer, s)

/-- The answers to calls one after the other. -/
def calls (s : Stream) : List Call → List Answer × Stream
  | [] => ([], s)
  | c :: cs =>
    let (answer, s) := s.call c
    let (answers, s) := s.calls cs
    (answer :: answers, s)

end Stream

/-- How far a text has been read: how many visible tokens have been taken and how many demanded, and
the end of the token given last. -/
structure Progress where
  taken : Nat
  demanded : Nat
  lastEnd : Position

namespace Progress

/-- Nothing has been read. -/
def start : Progress := ⟨0, 0, .start⟩

/-- The progress when the token `k` places ahead has been demanded. -/
def demand (p : Progress) (k : Nat) : Progress :=
  { p with demanded := max p.demanded (p.taken + k + 1) }

/-- The progress when the next token has been given. -/
def next (l : Transcript) (p : Progress) : Progress where
  taken := if p.taken < l.visible.length then p.taken + 1 else p.taken
  demanded := max p.demanded (p.taken + 1)
  lastEnd :=
    match l.get p.taken with
    | .ok t => t.span.stop
    | .error _ => p.lastEnd

/-- The answer that the list of tokens gives to a call. -/
def call (l : Transcript) (p : Progress) : Call → Answer × Progress
  | .peek k => (.token (l.get (p.taken + k)), p.demand k)
  | .peekKind k => (.kind ((l.get (p.taken + k)).map (·.kind)), p.demand k)
  | .next => (.token (l.get p.taken), p.next l)
  | .isAtEnd => (.atEnd ((l.get p.taken).map (·.kind = .eof)), p.demand 0)

/-- The answers that the list of tokens gives to calls one after the other. -/
def calls (l : Transcript) (p : Progress) : List Call → List Answer × Progress
  | [] => ([], p)
  | c :: cs =>
    let (answer, p) := p.call l c
    let (answers, p) := p.calls l cs
    (answer :: answers, p)

end Progress

/-! ### Transcripts -/

section

variable {c d : Cursor} {t : Token} {e : Fault}

theorem Cursor.transcript_of_rest_eq_nil (hc : c.rest = []) :
  c.transcript = ⟨[], .ok c.position⟩
  := by
  rw [transcript.eq_def, dif_pos hc]

theorem Cursor.transcript_of_next (hc : c.rest ≠ []) (hnext : c.next = .ok (t, d)) :
  c.transcript = ⟨t :: d.transcript.tokens, d.transcript.stop⟩
  := by
  rw [transcript.eq_def, dif_neg hc]
  split <;> simp_all

theorem Cursor.transcript_of_fault (hc : c.rest ≠ []) (hnext : c.next = .error e) :
  c.transcript = ⟨[], .error e⟩
  := by
  rw [transcript.eq_def, dif_neg hc]
  split <;> simp_all

/-- What is visible from a cursor on are the visible ones of all tokens. -/
theorem Cursor.visible_eq (c : Cursor) :
  c.visible = (c.transcript.visible, c.transcript.stop)
  := by
  fun_induction Cursor.transcript c with
  | case1 c hc => simp [visible_of_rest_eq_nil hc, Transcript.visible]
  | case2 c hc e he => simp [visible_of_fault hc he, Transcript.visible]
  | case3 c hc t d hnext others ih =>
      rw [visible_of_next hc hnext, ih]
      cases hhidden : t.kind.isHidden <;> simp [Transcript.visible, hhidden, others]

/-- A text without a fault is the list of its tokens and the token `eof`. -/
theorem Cursor.tokens_eq (c : Cursor) :
  c.tokens = c.transcript.stop.map fun p => c.transcript.tokens ++ [.eof p]
  := by
  fun_induction Cursor.tokens c with
  | case1 c hc => simp [transcript_of_rest_eq_nil hc, Except.map]
  | case2 c hc e he => simp [transcript_of_fault hc he, Except.map]
  | case3 c hc t d hnext ih =>
      rw [transcript_of_next hc hnext, ih]
      cases d.transcript.stop <;> rfl

end

namespace Transcript

variable {n m : Nat} {ts rest : List Token}

@[simp]
theorem reach_nil (n : Nat) :
  reach n [] = []
  := by
  cases n <;> rfl

/-- The beginning with more visible tokens goes on as the rest begins. -/
theorem reach_add (h : ts = reach n ts ++ rest) :
  reach (n + m) ts = reach n ts ++ reach m rest
  := by
  induction ts generalizing n with
  | nil =>
      have hrest : rest = [] := by simpa using h.symm
      simp [hrest]
  | cons t ts ih =>
      cases n with
      | zero =>
          rw [reach, List.nil_append] at h
          rw [h, Nat.zero_add, reach, List.nil_append]
      | succ n =>
          rw [reach, List.cons_append, List.cons.injEq] at h
          rw [Nat.add_right_comm, reach, reach, List.cons_append, ← ih h.2]
          cases t.kind.isHidden <;> simp [Nat.add_right_comm]

theorem length_visible_reach (n : Nat) (ts : List Token) :
  ((reach n ts).filter (!·.kind.isHidden)).length = min n (ts.filter (!·.kind.isHidden)).length
  := by
  induction ts generalizing n with
  | nil => simp
  | cons t ts ih =>
      cases n with
      | zero => simp [reach]
      | succ n => cases hhidden : t.kind.isHidden <;> simp [reach, hhidden, ih]

theorem reach_of_length_lt (h : (ts.filter (!·.kind.isHidden)).length < n) :
  reach n ts = ts
  := by
  induction ts generalizing n with
  | nil => simp
  | cons t ts ih =>
      cases n with
      | zero => contradiction
      | succ n =>
          rw [reach, ih]
          cases hhidden : t.kind.isHidden <;> simp [hhidden] at h ⊢ <;> omega

end Transcript

/-! ### One call -/

/-- Reading on takes the shortest beginning of the text ahead that holds as many visible tokens as
are wanting. -/
theorem Stream.demand_reach (n : Nat) (s : Stream) :
  let used := Transcript.reach (n - s.ahead.length) s.cursor.transcript.tokens
  s.cursor.transcript.tokens = used ++ (s.demand n).2.cursor.transcript.tokens ∧
    (s.demand n).2.hidden.toList = s.hidden.toList ++ used.filter (·.kind.isHidden) ∧
    (s.demand n).2.ahead.length = s.ahead.length + (used.filter (!·.kind.isHidden)).length
  := by
  fun_induction Stream.demand n s with
  | case1 s hn => simp [Nat.sub_eq_zero_of_le hn, Transcript.reach]
  | case2 s hn hc => simp [Cursor.transcript_of_rest_eq_nil hc]
  | case3 s hn hc e he => simp [Cursor.transcript_of_fault hc he]
  | case4 s hn hc t c hnext hhidden ih =>
      obtain ⟨k, hk⟩ : ∃ k, n - s.ahead.length = k + 1 := ⟨n - s.ahead.length - 1, by omega⟩
      simp only [hk] at ih
      simp only [hk, Cursor.transcript_of_next hc hnext, Transcript.reach, if_pos hhidden]
      obtain ⟨htokens, hidden, hahead⟩ := ih
      refine ⟨congrArg (t :: ·) htokens, ?_, ?_⟩
      · simp [hidden, hhidden]
      · simp [hahead, hhidden]
  | case5 s hn hc t c hnext hhidden ih =>
      obtain ⟨k, hk⟩ : ∃ k, n - s.ahead.length = k + 1 := ⟨n - s.ahead.length - 1, by omega⟩
      have hk' : n - (s.ahead ++ [t]).length = k := by
        rw [List.length_append, List.length_singleton]
        omega
      simp only [hk'] at ih
      simp only [hk, Cursor.transcript_of_next hc hnext, Transcript.reach, if_neg hhidden]
      obtain ⟨htokens, hidden, hahead⟩ := ih
      refine ⟨congrArg (t :: ·) htokens, ?_, ?_⟩
      · simp [hidden, hhidden]
      · simp [hahead, hhidden]
        omega

/-- Taking a token reads on as far as looking at it does. -/
theorem Stream.next_reads (s : Stream) :
  s.next.2.cursor = (s.demand 1).2.cursor ∧ s.next.2.hidden = (s.demand 1).2.hidden ∧
    s.next.2.ahead.length = (s.demand 1).2.ahead.length - 1
  := by
  obtain ⟨-, hend⟩ := s.demand_spec 1
  unfold next
  generalize s.demand 1 = answer at hend
  rcases answer with ⟨_ | e, r⟩
  · cases hahead : r.ahead <;> simp [hahead]
  · simp only at hend
    refine ⟨rfl, rfl, ?_⟩
    simp only
    omega

namespace Tape

variable (s : Tape)

/-- The next token is the one right ahead. -/
theorem fst_next :
  s.next.1 = s.peek 0
  := by
  obtain ⟨tokens, stop, last⟩ := s
  cases tokens <;> cases stop <;> rfl

theorem tokens_next :
  s.next.2.tokens = s.tokens.tail
  := by
  obtain ⟨tokens, stop, last⟩ := s
  cases tokens <;> cases stop <;> rfl

theorem stop_next :
  s.next.2.stop = s.stop
  := by
  obtain ⟨tokens, stop, last⟩ := s
  cases tokens <;> cases stop <;> rfl

theorem last_next :
  s.next.2.last.stop =
    match s.peek 0 with
    | .ok t => t.span.stop
    | .error _ => s.last.stop
  := by
  obtain ⟨tokens, stop, last⟩ := s
  cases tokens <;> cases stop <;> rfl

end Tape

/-- A stream is where the progress says in the list of tokens. -/
structure Shows (l : Transcript) (p : Progress) (s : Stream) : Prop where
  visible_eq : s.tape.tokens = l.visible.drop p.taken
  stop_eq : s.tape.stop = l.stop
  last_eq : s.last.stop = p.lastEnd
  ahead_eq : p.taken + s.ahead.length = min p.demanded l.visible.length
  tokens_eq : l.tokens = Transcript.reach p.demanded l.tokens ++ s.cursor.transcript.tokens
  hidden_eq : s.hidden.toList = l.hiddenBefore p.demanded

theorem Stream.last_demand (n : Nat) (s : Stream) :
  (s.demand n).2.last = s.last
  := congrArg Tape.last (s.demand_spec n).1

namespace Shows

variable {l : Transcript} {p : Progress} {s : Stream}

theorem ofString (text : String) :
  Shows (.ofString text) .start (.ofString text)
  := by
  constructor
  · simp [Stream.tape, Stream.ofString, Transcript.ofString, Cursor.visible_eq, Progress.start]
  · simp [Stream.tape, Stream.ofString, Transcript.ofString, Cursor.visible_eq]
  · rfl
  · simp [Progress.start, Stream.ofString]
  · simp [Progress.start, Transcript.reach, Transcript.ofString, Stream.ofString]
  · simp [Progress.start, Transcript.hiddenBefore, Transcript.reach, Stream.ofString]

/-- Demanding the token `k` places ahead is progress. -/
theorem demand (h : Shows l p s) (k : Nat) :
  Shows l (p.demand k) (s.demand (k + 1)).2
  := by
  obtain ⟨htokens, hidden, hahead⟩ := s.demand_reach (k + 1)
  have hlength := Transcript.length_visible_reach (k + 1 - s.ahead.length) s.cursor.transcript.tokens
  have hreach : Transcript.reach (max p.demanded (p.taken + k + 1)) l.tokens =
      Transcript.reach p.demanded l.tokens ++
        Transcript.reach (k + 1 - s.ahead.length) s.cursor.transcript.tokens := by
    have hcount := h.ahead_eq
    rcases Nat.lt_or_ge l.visible.length p.demanded with hlt | hle
    · have hall := Transcript.reach_of_length_lt hlt
      have hnone : s.cursor.transcript.tokens = [] := by
        have := h.tokens_eq
        rw [hall] at this
        simpa using this
      rw [hall, hnone, Transcript.reach_nil, List.append_nil]
      apply Transcript.reach_of_length_lt
      change l.visible.length < _
      omega
    · have hmax : max p.demanded (p.taken + k + 1) = p.demanded + (k + 1 - s.ahead.length) := by
        omega
      rw [hmax]
      apply Transcript.reach_add h.tokens_eq
  have hvisible : (s.cursor.transcript.tokens.filter (!·.kind.isHidden)).length =
      l.visible.length - min p.demanded l.visible.length := by
    have hwhole := congrArg (fun ts => (ts.filter (!·.kind.isHidden)).length) h.tokens_eq
    simp only [List.filter_append, List.length_append, Transcript.length_visible_reach] at hwhole
    change l.visible.length = min p.demanded l.visible.length + _ at hwhole
    omega
  have htape := (s.demand_spec (k + 1)).1
  constructor
  · rw [htape, h.visible_eq]
    rfl
  · rw [htape, h.stop_eq]
  · rw [Stream.last_demand, h.last_eq]
    rfl
  · simp only [hahead, hlength, hvisible, Progress.demand]
    have hcount := h.ahead_eq
    omega
  · simp only [Progress.demand, hreach, List.append_assoc, ← htokens]
    apply h.tokens_eq
  · rw [hidden, h.hidden_eq]
    simp only [Transcript.hiddenBefore, Progress.demand, hreach, List.filter_append]

/-- The token `k` places ahead is the one in the list. -/
theorem peek (h : Shows l p s) (k : Nat) :
  (s.peek k).1 = l.get (p.taken + k) ∧ Shows l (p.demand k) (s.peek k).2
  := by
  constructor
  · rw [(s.peek_tape k).1, Tape.peek, h.visible_eq, h.stop_eq, List.getElem?_drop]
    rfl
  · have hstate : (s.peek k).2 = (s.demand (k + 1)).2 := by
      rw [Stream.peek]
      split <;> simp [*]
    rw [hstate]
    apply h.demand

theorem peekKind (h : Shows l p s) (k : Nat) :
  (s.peekKind k).1 = (l.get (p.taken + k)).map (·.kind) ∧ Shows l (p.demand k) (s.peekKind k).2
  := by
  rw [← (h.peek k).1]
  exact ⟨rfl, (h.peek k).2⟩

theorem isAtEnd (h : Shows l p s) :
  s.isAtEnd.1 = (l.get p.taken).map (fun t => decide (t.kind = .eof)) ∧
    Shows l (p.demand 0) s.isAtEnd.2
  := by
  obtain ⟨hanswer, hstate⟩ := h.peekKind 0
  refine ⟨?_, hstate⟩
  change (s.peekKind 0).1.map _ = _
  rw [hanswer, Nat.add_zero]
  cases l.get p.taken <;> rfl

/-- The next token is the one in the list, and it is taken unless there is none. -/
theorem next (h : Shows l p s) :
  s.next.1 = l.get p.taken ∧ Shows l (p.next l) s.next.2
  := by
  have hpeek : s.tape.peek 0 = l.get p.taken := by
    rw [← (s.peek_tape 0).1, (h.peek 0).1, Nat.add_zero]
  have hanswer := congrArg Prod.fst s.next_tape
  have htape := congrArg Prod.snd s.next_tape
  simp only at hanswer htape
  have hdemand := h.demand 0
  obtain ⟨hcursor, hidden, hahead⟩ := s.next_reads
  have hcount := hdemand.ahead_eq
  simp only [Progress.demand, Nat.zero_add, Nat.add_zero] at hcount
  constructor
  · rw [hanswer, Tape.fst_next, hpeek]
  · constructor
    · rw [htape, Tape.tokens_next, h.visible_eq, List.tail_drop, Progress.next]
      split
      · rfl
      · next hnone =>
          have hle := Nat.le_of_not_lt hnone
          rw [List.drop_eq_nil_of_le (Nat.le_succ_of_le hle), List.drop_eq_nil_of_le hle]
    · rw [htape, Tape.stop_next, h.stop_eq]
    · change s.next.2.tape.last.stop = _
      rw [htape, Tape.last_next, hpeek, Progress.next]
      cases l.get p.taken with
      | error e => apply h.last_eq
      | ok t => rfl
    · rw [hahead, Progress.next]
      simp only
      split <;> omega
    · rw [hcursor]
      apply hdemand.tokens_eq
    · rw [hidden]
      apply hdemand.hidden_eq

/-- Every call is answered as the list says, and is progress. -/
theorem call (h : Shows l p s) (c : Call) :
  (s.call c).1 = (p.call l c).1 ∧ Shows l (p.call l c).2 (s.call c).2
  := by
  cases c with
  | peek k => exact ⟨congrArg Answer.token (h.peek k).1, (h.peek k).2⟩
  | peekKind k => exact ⟨congrArg Answer.kind (h.peekKind k).1, (h.peekKind k).2⟩
  | next => exact ⟨congrArg Answer.token h.next.1, h.next.2⟩
  | isAtEnd => exact ⟨congrArg Answer.atEnd h.isAtEnd.1, h.isAtEnd.2⟩

/-- So are all calls one after the other. -/
theorem calls (h : Shows l p s) (cs : List Call) :
  (s.calls cs).1 = (p.calls l cs).1 ∧ Shows l (p.calls l cs).2 (s.calls cs).2
  := by
  induction cs generalizing p s with
  | nil => exact ⟨rfl, h⟩
  | cons c cs ih =>
      obtain ⟨hanswer, hstate⟩ := h.call c
      obtain ⟨hanswers, hlast⟩ := ih hstate
      refine ⟨?_, hlast⟩
      simp only [Stream.calls, Progress.calls, hanswer, hanswers]

end Shows

/-- A stream answers calls as the list of the tokens of its text does; its last token given ends
where the list says, and the hidden tokens that it has set aside are those before the furthest
visible one demanded. -/
theorem Stream.calls_refine (text : String) (calls : List Call) :
  let l := Transcript.ofString text
  let (answers, s) := (Stream.ofString text).calls calls
  let (expected, p) := Progress.start.calls l calls
  answers = expected ∧ s.last.stop = p.lastEnd ∧ s.hidden.toList = l.hiddenBefore p.demanded
  := by
  obtain ⟨hanswers, hshows⟩ := (Shows.ofString text).calls calls
  exact ⟨hanswers, hshows.last_eq, hshows.hidden_eq⟩

end SqlFront
