import Mathlib.Data.Nat.Find
import SqlFront.Proofs.Grammar.Alone
import SqlFront.Proofs.Grammar.Layout

/-!
# Statements taken verbatim

A statement that begins with a name, or with a keyword that begins no statement of the grammar, is
taken verbatim.  It goes on over all tokens up to the first one that stops it (`Grammar.Stops`): the
end of the text, an unrecognized character, or a semicolon or closing parenthesis where no
parenthesis is open.  What the text is read as, or where it is refused, is told from that token and
the one behind it (`parseStatement_verbatim`).

The loop over the tokens counts the parentheses that are open.  One step passes a token that does
not stop it and counts on (`Grammar.balanced_step`), and a run passes all tokens before the first
that does (`Grammar.balanced_run`).
-/

namespace SqlFront

/-- Whether a statement that begins with such a token is taken verbatim. -/
def Kind.beginsVerbatim : Kind → Bool
  | keyword k => k ∉ [.MERGE, .LOAD, .EXPORT, .WITH, .SELECT, .VALUES, .TABLE]
  | kind => kind.isIdentifier

namespace Grammar

open Production

/-! ### Where a statement stops -/

/-- As many parentheses are closed among the tokens as are opened. -/
def NoneOpen (ts : List Token) : Prop :=
  ts.countP (·.kind = .leftParen) = ts.countP (·.kind = .rightParen)

/-- Behind the tokens `before`, a statement that is taken verbatim does not go on with `t`. -/
inductive Stops (before : List Token) (t : Token) : Prop where
  | atEnd (isEnd : t.kind = .eof)
  | unrecognized (isUnrecognized : t.kind = .unrecognized)
  | outside (ends : t.kind = .semicolon ∨ t.kind = .rightParen) (noneOpen : NoneOpen before)

/-- What is wanted where a token of this kind stops a statement and the text is refused. -/
def missing : Kind → String
  | .eof => "')'"
  | .unrecognized => "a valid token"
  | .semicolon => "end of input"
  | _ => "';' or end of input"

/-- Behind the tokens, `depth` more parentheses have been opened than closed. -/
def OpenBy (ts : List Token) (depth : Nat) : Prop :=
  ts.countP (·.kind = .leftParen) = ts.countP (·.kind = .rightParen) + depth

variable {before passed : List Token} {depth n : Nat} {s m : Tape} {t : Token}

theorem openBy_nil :
  OpenBy [] 0
  := rfl

theorem OpenBy.noneOpen_iff (h : OpenBy before depth) :
  NoneOpen before ↔ depth = 0
  := by
  unfold OpenBy at h
  unfold NoneOpen
  omega

theorem OpenBy.left (h : OpenBy before depth) (ht : t.kind = .leftParen) :
  OpenBy (before ++ [t]) (depth + 1)
  := by
  unfold OpenBy at h ⊢
  simp only [List.countP_append, List.countP_singleton, ht]
  simp
  omega

theorem OpenBy.right (h : OpenBy before (depth + 1)) (ht : t.kind = .rightParen) :
  OpenBy (before ++ [t]) depth
  := by
  unfold OpenBy at h ⊢
  simp only [List.countP_append, List.countP_singleton, ht]
  simp
  omega

theorem OpenBy.other (h : OpenBy before depth) (hleft : t.kind ≠ .leftParen)
    (hright : t.kind ≠ .rightParen) :
  OpenBy (before ++ [t]) depth
  := by
  unfold OpenBy at h ⊢
  simp [List.countP_append, hleft, hright, h]

/-- The first token of such a statement does not stop it. -/
theorem not_stops_of_beginsVerbatim (h : t.kind.beginsVerbatim) :
  ¬ Stops before t
  := by
  rintro (isEnd | isUnrecognized | ⟨isEnd | isEnd, -⟩) <;>
    simp_all [Kind.beginsVerbatim, Kind.isIdentifier]

/-- A semicolon stops a statement only where no parenthesis is open. -/
theorem Stops.noneOpen (h : Stops before t) (ht : t.kind = .semicolon) :
  NoneOpen before
  := by
  cases h with
  | atEnd isEnd => simp [isEnd] at ht
  | unrecognized isUnrecognized => simp [isUnrecognized] at ht
  | outside _ noneOpen => exact noneOpen

/-! ### Steps and runs -/

/-- A token that does not stop the statement is taken, and the parentheses are counted on. -/
theorem balanced_step (htakes : s.Takes [t] m) (hdepth : OpenBy before depth)
    (hgoes : ¬ Stops before t) :
  ∃ depth', OpenBy (before ++ [t]) depth' ∧
    (balanced (n + 1) depth before.reverse).eval s =
      (balanced n depth' (before ++ [t]).reverse).eval m
  := by
  have hfound : (before ++ [t]).reverse = t :: before.reverse := by simp
  have hpeek := htakes.peek_zero
  have hnext := htakes.next_eq
  have htake : ∀ depth', (do balanced n depth' ((← advance) :: before.reverse)).eval s =
      (balanced n depth' (before ++ [t]).reverse).eval m := by
    intro depth'
    simp only [eval_bind, advance, eval, hnext, hfound]
  have hnone := hdepth.noneOpen_iff
  simp only [balanced, eval_bind, peek, eval, Lookahead.distance, hpeek]
  split
  · next hkind => exact absurd (.atEnd hkind) hgoes
  · next hkind _ => exact absurd (.atEnd hkind) hgoes
  · next hkind => exact absurd (.outside (.inl hkind) (hnone.mpr rfl)) hgoes
  · next hkind => exact absurd (.unrecognized hkind) hgoes
  · next hkind => exact absurd (.outside (.inr hkind) (hnone.mpr rfl)) hgoes
  · next hkind => exact ⟨_, hdepth.right hkind, htake _⟩
  · next hkind => exact ⟨_, hdepth.left hkind, htake _⟩
  · next hleft _ _ hzero hsucc =>
      refine ⟨_, hdepth.other hleft ?_, htake _⟩
      intro hright
      exact (Nat.eq_zero_or_eq_succ_pred _).elim (hzero hright) (hsucc _ hright)

/-- The loop takes all tokens up to the first one that stops the statement. -/
theorem balanced_run (htakes : s.Takes passed m) (hdepth : OpenBy before depth)
    (hgoes : ∀ front u back, passed = front ++ u :: back → ¬ Stops (before ++ front) u) :
  ∃ depth', OpenBy (before ++ passed) depth' ∧
    (balanced (passed.length + n) depth before.reverse).eval s =
      (balanced n depth' (before ++ passed).reverse).eval m
  := by
  induction passed generalizing before depth s with
  | nil =>
      obtain rfl := Tape.takes_nil.mp htakes
      rw [List.append_nil, List.length_nil, Nat.zero_add]
      exact ⟨depth, hdepth, rfl⟩
  | cons t passed ih =>
      have hsplit : s.Takes ([t] ++ passed) m := htakes
      obtain ⟨r, htake, hothers⟩ := Tape.takes_append.mp hsplit
      have hgo : ¬ Stops before t := by simpa using hgoes [] t passed rfl
      obtain ⟨depth₁, hdepth₁, hstep⟩ := balanced_step (n := passed.length + n) htake hdepth hgo
      obtain ⟨depth', hdepth', hrun⟩ := ih hothers hdepth₁ (by
        rintro front u back rfl
        simpa using hgoes (t :: front) u back rfl)
      rw [List.append_assoc, List.singleton_append] at hdepth' hrun
      refine ⟨depth', hdepth', ?_⟩
      rw [List.length_cons, Nat.add_right_comm, hstep, hrun]

/-- Where no parenthesis is open, the loop ends before the end of the text or a semicolon. -/
theorem balanced_ends (ht : s.peek 0 = .ok t) (hends : t.kind = .eof ∨ t.kind = .semicolon) :
  (balanced (n + 1) 0 before.reverse).Reads s before s
  := by
  simp only [Reads, balanced, eval_bind, peek, eval, Lookahead.distance, ht]
  rcases hends with hkind | hkind
  · simp [hkind, pure, eval]
  · simp [hkind, pure, eval]

/-- Where the statement stops otherwise, it is refused. -/
theorem balanced_refuses (ht : s.peek 0 = .ok t) (hdepth : OpenBy before depth)
    (hstops : Stops before t)
    (hends : ¬ (NoneOpen before ∧ (t.kind = .eof ∨ t.kind = .semicolon))) :
  (balanced (n + 1) depth before.reverse).eval s =
    (.error ⟨.expected (missing t.kind) t, .point t.span.start⟩, s)
  := by
  have hexpected : ∀ wanted, (expected wanted : Production (List Token)).eval s =
      (.error ⟨.expected wanted t, .point t.span.start⟩, s) := by
    intro wanted
    simp only [expected, eval, ht]
  rw [hdepth.noneOpen_iff] at hends
  simp only [balanced, eval_bind, peek, eval, Lookahead.distance, ht]
  cases hstops with
  | atEnd isEnd =>
      obtain ⟨depth, rfl⟩ : ∃ d, depth = d + 1 :=
        Nat.exists_eq_succ_of_ne_zero fun hzero => hends ⟨hzero, .inl isEnd⟩
      simp only [isEnd]
      exact hexpected _
  | unrecognized isUnrecognized =>
      simp only [isUnrecognized]
      exact hexpected _
  | outside ends noneOpen =>
      obtain rfl := hdepth.noneOpen_iff.mp noneOpen
      rcases ends with hkind | hkind
      · exact absurd ⟨rfl, .inr hkind⟩ hends
      · simp only [hkind]
        exact hexpected _

/-! ### Statements -/

/-- What a statement that begins with such a token is read as. -/
theorem statement_verbatim {inner : Inner} (ht : s.peek 0 = .ok t)
    (hbegins : t.kind.beginsVerbatim) :
  (statement inner).eval s = (Statement.verbatim <$> verbatim inner.bound).eval s
  := by
  change (peek >>= _).eval s = _
  rw [eval_bind]
  simp only [peek, eval, Lookahead.distance, ht]
  split
  case h_9 | h_10 | h_11 | h_12 => rfl
  all_goals simp_all [Kind.beginsVerbatim, Kind.isIdentifier]

/-- The statement that such tokens are taken as, the first of them being `first`. -/
def takenAs (first : Token) (ts : List Token) : Statement :=
  .verbatim ⟨first.text.toUpper, ts, Span.over ts⟩

/-- A statement that a semicolon follows is all that the text consists of if the text ends there. -/
theorem soleStatement_of_semicolon {inner : Inner} {a : Statement} {r : Tape} {u : Token}
    (h : (statement inner).Reads s a m) (htakes : m.Takes [t] r) (ht : t.kind = .semicolon)
    (hu : r.peek 0 = .ok u) :
  (soleStatement inner).eval s =
    (if u.kind = .eof then .ok (.statement a)
      else .error ⟨.expected "end of input" u, .point u.span.start⟩, r)
  := by
  have hstatement : (statement inner).eval s = (.ok a, m) := h
  have haccept : (accept .semicolon).eval m = (.ok true, r) :=
    (reads_accept (by decide)).mpr (.inl ⟨rfl, t, ht, htakes⟩)
  have hnext : (nextIs .eof).eval r = (.ok (decide (u.kind = .eof)), r) :=
    reads_nextIs.mpr ⟨⟨u, hu, rfl⟩, rfl⟩
  simp only [soleStatement, theEnd, eval_bind, hstatement, haccept, hnext, decide_eq_true_eq]
  by_cases hkind : u.kind = .eof
  · simp [hkind, pure, eval]
  · simp [hkind, expected, eval, hu]

/-! ### What is read and what is refused -/

section

variable {inner : Inner} {first : Token} {others : List Token}
  (hbound : (first :: others).length < inner.bound)
  (htakes : s.Takes (first :: others) m) (hbegins : first.kind.beginsVerbatim)
  (hgoes : ∀ front u back, first :: others = front ++ u :: back → ¬ Stops front u)
  (ht : m.peek 0 = .ok t) (hstops : Stops (first :: others) t)

include hbound htakes hgoes in
/-- The loop takes the tokens of the statement and has counted their parentheses. -/
theorem balanced_whole :
  ∃ n depth, OpenBy (first :: others) depth ∧ (balanced inner.bound 0 []).eval s =
    (balanced (n + 1) depth (first :: others).reverse).eval m
  := by
  obtain ⟨n, hn⟩ := Nat.exists_eq_add_of_lt hbound
  obtain ⟨depth, hdepth, hrun⟩ := balanced_run (n := n + 1) htakes openBy_nil hgoes
  refine ⟨n, depth, hdepth, ?_⟩
  rw [hn]
  exact hrun

include hbound htakes hbegins hgoes ht in
/-- Where no parenthesis is open, the end of the text or a semicolon ends the statement. -/
theorem statement_ends (hnone : NoneOpen (first :: others))
    (hends : t.kind = .eof ∨ t.kind = .semicolon) :
  (statement inner).Reads s (takenAs first (first :: others)) m
  := by
  obtain ⟨n, depth, hdepth, hwhole⟩ := balanced_whole hbound htakes hgoes
  obtain rfl := hdepth.noneOpen_iff.mp hnone
  have hloop : (balanced inner.bound 0 []).Reads s (first :: others) m :=
    hwhole.trans (balanced_ends ht hends)
  have hverbatim : (verbatim inner.bound).Reads s
      ⟨first.text.toUpper, first :: others, Span.over (first :: others)⟩ m := by
    simp only [verbatim, reads_bind, reads_peek, reads_spanFrom, reads_pure]
    refine ⟨first, s, ⟨htakes.peek_zero, rfl⟩, _, m, hloop, _, m, ⟨rfl, rfl⟩, ?_, rfl⟩
    rw [htakes.over_eq]
  rw [Reads, statement_verbatim htakes.peek_zero hbegins]
  exact reads_map.mpr ⟨_, hverbatim, rfl⟩

include hbound htakes hbegins hgoes ht hstops in
/-- Every other token that stops the statement is where the text is refused. -/
theorem soleStatement_refuses
    (hends : ¬ (NoneOpen (first :: others) ∧ (t.kind = .eof ∨ t.kind = .semicolon))) :
  ((soleStatement inner).eval s).1 = .error ⟨.expected (missing t.kind) t, .point t.span.start⟩
  := by
  obtain ⟨n, depth, hdepth, hwhole⟩ := balanced_whole hbound htakes hgoes
  have hloop := hwhole.trans (balanced_refuses ht hdepth hstops hends)
  have hpeek : peek.eval s = (.ok first, s) := reads_peek.mpr ⟨htakes.peek_zero, rfl⟩
  have hstatement := @statement_verbatim s first inner htakes.peek_zero hbegins
  have hmap : (Statement.verbatim <$> verbatim inner.bound).eval s =
      (.error ⟨.expected (missing t.kind) t, .point t.span.start⟩, m) := by
    change (verbatim inner.bound >>= _).eval s = _
    simp only [verbatim, eval_bind, hpeek, hloop]
  simp only [soleStatement, eval_bind, hstatement, hmap]

end

end Grammar

open Grammar

/-! ### Texts -/

variable {text : String} {ts : List Token} {first t : Token} {j : Nat} {p : Position}

/-- Where a text has no fault, there is a token of every number. -/
theorem Transcript.exists_get (hp : (ofString text).stop = .ok p) (i : Nat) :
  ∃ t, (ofString text).get i = .ok t
  := by
  unfold get
  split
  · exact ⟨_, rfl⟩
  · exact ⟨.eof p, by rw [hp]; rfl⟩

/-- A token within a beginning of the text stands where it stands in the text. -/
theorem Transcript.get_of_take {front back : List Token} {u : Token}
    (h : (ofString text).visible.take j = front ++ u :: back) :
  front.length < j ∧ (ofString text).get front.length = .ok u ∧
    (ofString text).visible.take front.length = front
  := by
  have hsplit := List.take_append_drop j (ofString text).visible
  rw [h, List.append_assoc, List.cons_append] at hsplit
  generalize (ofString text).visible.drop j = behind at hsplit
  refine ⟨?_, ?_, ?_⟩
  · have hlength := congrArg List.length h
    simp only [List.length_take, List.length_append, List.length_cons] at hlength
    omega
  · simp [get, ← hsplit]
  · simp [← hsplit]

namespace Grammar

/-- The token `t`, number `j`, is the first one that stops a statement that begins the text. -/
structure FirstStop (l : Transcript) (j : Nat) (t : Token) : Prop where
  isToken : l.get j = .ok t
  stops : Stops (l.visible.take j) t
  first : ∀ i < j, ∀ u, l.get i = .ok u → ¬ Stops (l.visible.take i) u

/-- Some token of a text is the first one that stops a statement. -/
theorem exists_firstStop (hp : (Transcript.ofString text).stop = .ok p) :
  ∃ j t, FirstStop (.ofString text) j t
  := by
  let stopped (j : Nat) : Prop := ∃ t, (Transcript.ofString text).get j = .ok t ∧
    Stops ((Transcript.ofString text).visible.take j) t
  -- The end of the text stops the statement, if nothing before it does.
  have hsome : ∃ j, stopped j := by
    refine ⟨(Transcript.ofString text).visible.length, .eof p, ?_, .atEnd rfl⟩
    simp [Transcript.get, hp, Except.map]
  classical
  obtain ⟨t, ht, hstops⟩ := Nat.find_spec hsome
  refine ⟨Nat.find hsome, t, ht, hstops, ?_⟩
  intro i hi u hu hstop
  exact Nat.find_min hsome hi ⟨u, hu, hstop⟩

namespace FirstStop

variable (h : FirstStop (.ofString text) j t)

include h in
theorem le_length (hp : (Transcript.ofString text).stop = .ok p) :
  j ≤ (Transcript.ofString text).visible.length
  := by
  by_contra hlt
  apply h.first _ (not_le.mp hlt) (.eof p) _ (.atEnd rfl)
  simp [Transcript.get, hp, Except.map]

include h in
theorem not_stops (front : List Token) (u : Token) (back : List Token)
    (hfront : (Transcript.ofString text).visible.take j = front ++ u :: back) :
  ¬ Stops front u
  := by
  obtain ⟨hlt, hu, htake⟩ := Transcript.get_of_take hfront
  have hgoes := h.first _ hlt u hu
  rwa [htake] at hgoes

include h in
/-- The token before which a statement stops is not the one that it begins with. -/
theorem exists_take_eq_cons (hp : (Transcript.ofString text).stop = .ok p)
    (hfirst : (Transcript.ofString text).get 0 = .ok first) (hbegins : first.kind.beginsVerbatim) :
  ∃ others, (Transcript.ofString text).visible.take j = first :: others
  := by
  cases hvisible : (Transcript.ofString text).visible with
  | nil =>
      obtain rfl : Token.eof p = first := by
        simpa [Transcript.get, hp, hvisible, Except.map] using hfirst
      contradiction
  | cons u us =>
      obtain rfl : u = first := by simpa [Transcript.get, hvisible] using hfirst
      cases j with
      | zero =>
          obtain rfl : u = t := Except.ok.inj (hfirst.symm.trans h.isToken)
          exact absurd h.stops (not_stops_of_beginsVerbatim hbegins)
      | succ j => exact ⟨_, rfl⟩

include h in
/-- The tokens before the one that stops the statement can be taken, and that one is then ahead. -/
theorem exists_takes (hp : (Transcript.ofString text).stop = .ok p) :
  ∃ m, (Tape.ofString text).Takes ((Transcript.ofString text).visible.take j) m ∧
    ∀ k, m.peek k = (Transcript.ofString text).get (j + k)
  := by
  have htakes : (Tape.ofString text).Takes ((Transcript.ofString text).visible.take j)
      ⟨(Transcript.ofString text).visible.drop j, (Tape.ofString text).stop,
        Span.lastOf (Tape.ofString text).last ((Transcript.ofString text).visible.take j)⟩ := by
    refine ⟨?_, rfl, rfl⟩
    rw [List.take_append_drop, Transcript.tokens_ofString]
  refine ⟨_, htakes, fun k => ?_⟩
  rw [← htakes.peek_add, List.length_take_of_le (h.le_length hp), Transcript.peek_ofString]

variable (hp : (Transcript.ofString text).stop = .ok p)
  (hfirst : (Transcript.ofString text).get 0 = .ok first) (hbegins : first.kind.beginsVerbatim)

include h hp hfirst hbegins in
/-- What the text is parsed to is what is read of the tokens before the one that stops the statement,
then of that one and what is behind it. -/
theorem exists_eval :
  ∃ inner others m, (Transcript.ofString text).visible.take j = first :: others ∧
    (first :: others).length < inner.bound ∧ (Tape.ofString text).Takes (first :: others) m ∧
    (∀ k, m.peek k = (Transcript.ofString text).get (j + k)) ∧
    parseStatement text = ((soleStatement inner).eval (Tape.ofString text)).1
  := by
  obtain ⟨others, hpassed⟩ := h.exists_take_eq_cons hp hfirst hbegins
  obtain ⟨m, htakes, hpeek⟩ := h.exists_takes hp
  rw [hpassed] at htakes
  refine ⟨_, others, m, hpassed, ?_, htakes, hpeek,
    parseStatement_eq (Nat.lt_succ_self (Tape.ofString text).tokens.length)⟩
  have hlength := congrArg List.length htakes.tokens_eq
  rw [List.length_append] at hlength
  exact Nat.lt_succ_of_le (by omega)

include h hp hfirst hbegins in
/-- The text ends where no parenthesis is open. -/
theorem parse_end (hnone : NoneOpen ((Transcript.ofString text).visible.take j))
    (ht : t.kind = .eof) :
  parseStatement text =
    .ok (.statement (takenAs first ((Transcript.ofString text).visible.take j)))
  := by
  obtain ⟨inner, others, m, hpassed, hbound, htakes, hpeek, hparse⟩ :=
    h.exists_eval hp hfirst hbegins
  have hgoes := h.not_stops
  have hahead : m.peek 0 = .ok t := hpeek 0 ▸ h.isToken
  rw [hpassed] at hnone hgoes ⊢
  have hreads := statement_ends hbound htakes hbegins hgoes hahead hnone (.inl ht)
  have hsole : (soleStatement inner).Reads _ _ _ := soleStatement_of_statement hreads hahead ht
  rw [hparse, hsole]

include h hp hfirst hbegins in
/-- A semicolon ends the statement, and the text has to end behind it. -/
theorem parse_semicolon {u : Token} (ht : t.kind = .semicolon)
    (hu : (Transcript.ofString text).get (j + 1) = .ok u) :
  parseStatement text =
    if u.kind = .eof then .ok (.statement (takenAs first ((Transcript.ofString text).visible.take j)))
    else .error ⟨.expected "end of input" u, .point u.span.start⟩
  := by
  obtain ⟨inner, others, m, hpassed, hbound, htakes, hpeek, hparse⟩ :=
    h.exists_eval hp hfirst hbegins
  have hgoes := h.not_stops
  have hnone := h.stops.noneOpen ht
  have hahead : m.peek 0 = .ok t := hpeek 0 ▸ h.isToken
  rw [hpassed] at hnone hgoes ⊢
  have hreads := statement_ends hbound htakes hbegins hgoes hahead hnone (.inr ht)
  obtain ⟨r, -, htaken⟩ := Tape.next_of_peek hahead (by rw [ht]; decide)
  have hbehind : r.peek 0 = .ok u := by
    rw [← htaken.peek_add, ← hu]
    exact hpeek 1
  rw [hparse, soleStatement_of_semicolon hreads htaken ht hbehind]

include h hp hfirst hbegins in
/-- Everywhere else the text is refused. -/
theorem parse_refused
    (hends : ¬ (NoneOpen ((Transcript.ofString text).visible.take j) ∧
      (t.kind = .eof ∨ t.kind = .semicolon))) :
  parseStatement text = .error ⟨.expected (missing t.kind) t, .point t.span.start⟩
  := by
  obtain ⟨inner, others, m, hpassed, hbound, htakes, hpeek, hparse⟩ :=
    h.exists_eval hp hfirst hbegins
  have hgoes := h.not_stops
  have hstops := h.stops
  have hahead : m.peek 0 = .ok t := hpeek 0 ▸ h.isToken
  rw [hpassed] at hends hgoes hstops
  rw [hparse, soleStatement_refuses hbound htakes hbegins hgoes hahead hstops hends]

end FirstStop

end Grammar

/-- **Statements taken verbatim.**  Let a text begin with a name, or with a keyword that begins no
statement of the grammar, and let `t` be the first of its tokens, number `j`, that stops a
statement.  The text is a statement if no parenthesis is open there and `t` is the end of the text,
or a semicolon that the end of the text follows.  It is then read as the tokens before `t` with the
first of them in capitals.  Otherwise it is refused at `t`, or at the token behind `t` if that is a
semicolon. -/
theorem parseStatement_verbatim (htext : Token.list text = .ok ts)
    (hfirst : (Transcript.ofString text).get 0 = .ok first) (hbegins : first.kind.beginsVerbatim) :
  let l := Transcript.ofString text
  ∃ j t, FirstStop l j t ∧
    ((∃ node, parseStatement text = .ok node) ↔ NoneOpen (l.visible.take j) ∧
      (t.kind = .eof ∨ t.kind = .semicolon ∧ ∃ u, l.get (j + 1) = .ok u ∧ u.kind = .eof)) ∧
    (∀ node, parseStatement text = .ok node →
      node = .statement (takenAs first (l.visible.take j))) ∧
    ∀ e, parseStatement text = .error e →
      ∃ u, l.get (if t.kind = .semicolon then j + 1 else j) = .ok u ∧
        e = ⟨.expected (missing t.kind) u, .point u.span.start⟩
  := by
  intro l
  obtain ⟨⟨p, hp⟩, -⟩ := Tape.ofString_of_list htext
  rw [Transcript.stop_ofString] at hp
  obtain ⟨j, t, hstop⟩ := exists_firstStop hp
  refine ⟨j, t, hstop, ?_⟩
  by_cases hends : NoneOpen (l.visible.take j) ∧ (t.kind = .eof ∨ t.kind = .semicolon)
  · obtain ⟨hnone, hkind | hkind⟩ := hends
    · rw [hstop.parse_end hp hfirst hbegins hnone hkind]
      simp [l, hnone, hkind]
    · obtain ⟨u, hu⟩ := Transcript.exists_get hp (j + 1)
      rw [hstop.parse_semicolon hp hfirst hbegins hkind hu]
      by_cases heof : u.kind = .eof
      · simp [l, hnone, hkind, hu, heof]
      · simp [l, hkind, hu, heof, missing]
  · have hsemicolon : t.kind ≠ .semicolon :=
      fun hkind => hends ⟨hstop.stops.noneOpen hkind, .inr hkind⟩
    rw [hstop.parse_refused hp hfirst hbegins hends]
    refine ⟨⟨?_, ?_⟩, ?_, ?_⟩
    · rintro ⟨node, ⟨⟩⟩
    · rintro ⟨hnone, hkind | ⟨hkind, -⟩⟩
      · exact absurd ⟨hnone, .inl hkind⟩ hends
      · exact absurd hkind hsemicolon
    · rintro node ⟨⟩
    · rintro e ⟨⟩
      rw [if_neg hsemicolon]
      exact ⟨t, hstop.isToken, rfl⟩

/-- A semicolon between parentheses does not end the statement. -/
theorem parseStatement_verbatim_parentheses :
  let l := Transcript.ofString "alter a(b; c);"
  ∃ first j, l.get 0 = .ok first ∧ first.kind = .keyword .ALTER ∧
    parseStatement "alter a(b; c);" = .ok (.statement (takenAs first (l.visible.take j)))
  := by
  intro l
  have hok : (Token.list "alter a(b; c);").isOk = true ∧
      (parseStatement "alter a(b; c);").isOk = true ∧
      (l.get 0).toOption.map (·.kind) = some (.keyword .ALTER) := by decide +kernel
  obtain ⟨hlist, hparse, hkind⟩ := hok
  rcases hts : Token.list "alter a(b; c);" with e | ts
  · simp [hts, Except.isOk, Except.toBool] at hlist
  · rcases hfirst : l.get 0 with e | first
    · simp [hfirst, Except.toOption] at hkind
    · have hkind : first.kind = .keyword .ALTER := by simpa [hfirst, Except.toOption] using hkind
      obtain ⟨j, t, -, -, hnode, -⟩ := parseStatement_verbatim hts hfirst (by rw [hkind]; decide)
      rcases hresult : parseStatement "alter a(b; c);" with e | node
      · simp [hresult, Except.isOk, Except.toBool] at hparse
      · exact ⟨first, j, rfl, hkind, congrArg Except.ok (hnode node hresult)⟩

end SqlFront
