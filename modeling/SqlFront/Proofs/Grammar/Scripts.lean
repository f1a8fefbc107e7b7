import SqlFront.Proofs.Grammar.Beginnings
import SqlFront.Proofs.Grammar.StatementObeys
import SqlFront.Proofs.Reading.Lookahead
import SqlFront.Proofs.Tokens.Append

/-!
# Scripts that go on

Scripts may be read in pieces.  If a text is complete and is read as a script, then what stands in
the lines below it is read as if it stood alone: the statements of both are the statements of the
whole, and a fault of the second is the fault of the whole (`parseScript_append`).

The whole is compared with the first text up to its last semicolon, and from there on with the second
one, further down.
-/

namespace SqlFront

namespace Grammar

open Production

variable {inner inner' : Inner} {n : Nat} {found v : List Node} {s s' m r : Tape} {t u : Token}

/-! ### Steps of a script -/

/-- A semicolon alone is passed over. -/
theorem statements_of_semicolon (htakes : s.Takes [t] m) (ht : t.kind = .semicolon) :
  (statements inner (n + 1) found).eval s = (statements inner n found).eval m
  := by
  simp only [statements, eval_bind, peek, advance, eval, Lookahead.distance, htakes.peek_zero, ht,
    htakes.next_eq]

/-- A statement with a semicolon behind it is found. -/
theorem statements_of_statement {a : Statement} (ht : s.peek 0 = .ok t) (heof : t.kind ≠ .eof)
    (hsemicolon : t.kind ≠ .semicolon) (hreads : (statement inner).Reads s a m)
    (htakes : m.Takes [u] r) (hu : u.kind = .semicolon) :
  (statements inner (n + 1) found).eval s =
    (statements inner n (.statement a :: found)).eval r
  := by
  rw [Reads] at hreads
  simp only [statements, eval_bind, peek, eval, Lookahead.distance, ht, hreads, accept,
    htakes.peek_zero, hu, if_true, htakes.next_eq]

/-- A script ends, or a semicolon is passed over, or a statement is read, which another one may follow
behind a semicolon. -/
theorem reads_statements (h : (statements inner (n + 1) found).Reads s v s') :
  (∃ t, s.peek 0 = .ok t ∧ t.kind = .eof ∧ v = found.reverse) ∨
  (∃ t m, t.kind = .semicolon ∧ s.Takes [t] m ∧ (statements inner n found).Reads m v s') ∨
  ∃ t a m, s.peek 0 = .ok t ∧ t.kind ≠ .eof ∧ t.kind ≠ .semicolon ∧ (statement inner).Reads s a m ∧
    ((∃ u r, u.kind = .semicolon ∧ m.Takes [u] r ∧
      (statements inner n (.statement a :: found)).Reads r v s') ∨
    ∃ u, m.peek 0 = .ok u ∧ u.kind = .eof ∧ v = (.statement a :: found).reverse)
  := by
  simp only [statements, reads_bind, reads_peek] at h
  obtain ⟨t, m, ⟨ht, rfl⟩, h⟩ := h
  split at h
  · next hkind => exact .inl ⟨t, ht, hkind, (reads_pure.mp h).1⟩
  · next hkind =>
      obtain ⟨_, m', hadvance, h⟩ := reads_bind.mp h
      obtain ⟨rfl, htakes⟩ := takes_of_advance ht (by simp [hkind]) hadvance
      exact .inr (.inl ⟨_, m', hkind, htakes, h⟩)
  · next heof hsemicolon =>
      obtain ⟨a, m', ha, h⟩ := reads_bind.mp h
      refine .inr (.inr ⟨t, a, m', ht, heof, hsemicolon, ha, ?_⟩)
      rcases (reads_accept_bind (by decide)).mp h with ⟨u, r, hu, htakes, h⟩ | ⟨u, hu, -, h⟩
      · exact .inl ⟨u, r, hu, htakes, h⟩
      · simp only [Bool.false_eq_true, if_false, reads_bind, reads_theEnd, reads_pure] at h
        obtain ⟨-, -, ⟨⟨u, hu, hend⟩, -⟩, rfl, -⟩ := h
        exact .inr ⟨u, hu, hend, rfl⟩

/-! ### What has been found -/

/-- What has been found before stands before what is found. -/
theorem statements_found (n : Nat) (found : List Node) :
  statements inner n found = (found.reverse ++ ·) <$> statements inner n []
  := by
  have hmap : ∀ (found : List Node) (p : Production (List Node)),
      (found.reverse ++ ·) <$> p = p >>= fun ns => pure (found.reverse ++ ns) := fun _ _ => rfl
  induction n generalizing found with
  | zero => rfl
  | succ n ih =>
      rw [hmap, statements, statements, bind_assoc]
      apply congrArg (peek >>= ·)
      funext t
      split
      · change _ = pure (found.reverse ++ [])
        rw [List.append_nil]
      · rw [bind_assoc, ← hmap, ← ih]
      · rw [bind_assoc]
        apply congrArg (statement inner >>= ·)
        funext a
        rw [bind_assoc]
        apply congrArg (accept .semicolon >>= ·)
        funext ended
        cases ended with
        | false =>
            simp only [Bool.false_eq_true, if_false]
            rw [bind_assoc]
            apply congrArg (theEnd >>= ·)
            funext _
            change pure _ = pure _
            simp
        | true =>
            simp only [if_true]
            rw [ih (.statement a :: found), ih [.statement a], hmap, hmap, bind_assoc]
            apply congrArg (statements inner n [] >>= ·)
            funext ns
            change pure _ = pure _
            simp

/-- What was taken before a script makes no difference. -/
theorem statements_eval_behind (hquery : ∀ s, inner.query.TakesFirst s) (a : Span) :
  ((statements inner n found).eval (s.behind a)).1 = ((statements inner n found).eval s).1
  := by
  cases n with
  | zero => apply (takesFirst_fail _).eval_behind
  | succ n =>
      by_cases hend : ∃ t, s.peek 0 = .ok t ∧ t.kind = .eof
      · obtain ⟨t, ht, hkind⟩ := hend
        simp only [statements, eval_bind, peek, eval, Lookahead.distance, Tape.peek_behind, ht, hkind]
        rfl
      · apply TakesFirst.eval_behind
        apply takesFirst_peek_bind
        intro t ht
        split
        · next hkind => exact absurd ⟨t, ht, hkind⟩ hend
        · apply takesFirst_take
        · apply (statement_takesFirst (hquery s)).bind

/-! ### Tokens that end scripts -/

theorem mem_of_peek (h : s.peek 0 = .ok t) (hs : s.tokens ≠ []) :
  t ∈ s.tokens
  := by
  obtain ⟨u, us, htokens⟩ := List.exists_cons_of_ne_nil hs
  simp only [Tape.peek, htokens, List.getElem?_cons_zero, Except.ok.injEq] at h
  rw [htokens, h]
  exact List.mem_cons_self

/-- No script is read from a tape on which an unrecognized token stands. -/
theorem not_reads_statements {limit : Nat} (hin : inner.Follows (.blocked id) limit inner)
    (hs : s.tokens.length < limit) (heof : ∀ t ∈ s.tokens, t.kind ≠ .eof)
    (hblocked : ∃ t ∈ s.tokens, t.kind = .unrecognized) :
  ¬ (statements inner n found).Reads s v s'
  := by
  have hbehind : ∀ {t : Token} {s m : Tape}, t.kind = .semicolon → s.Takes [t] m →
      (∃ u ∈ s.tokens, u.kind = .unrecognized) → ∃ u ∈ m.tokens, u.kind = .unrecognized := by
    rintro t s m ht htakes ⟨u, hu, hkind⟩
    rw [htakes.tokens_eq, List.singleton_append] at hu
    rcases List.mem_cons.mp hu with rfl | hu
    · rw [ht] at hkind
      contradiction
    · exact ⟨u, hu, hkind⟩
  have hnonempty : ∀ {s : Tape}, (∃ u ∈ s.tokens, u.kind = .unrecognized) → s.tokens ≠ [] := by
    rintro s ⟨u, hu, -⟩
    exact List.ne_nil_of_mem hu
  induction n generalizing found s with
  | zero => simp [statements]
  | succ n ih =>
      intro h
      rcases reads_statements h with
        ⟨t, ht, hkind, -⟩ | ⟨t, m, hkind, htakes, h⟩ | ⟨t, a, m, ht, -, -, ha, h⟩
      · exact heof t (mem_of_peek ht (hnonempty hblocked)) hkind
      · have hsuffix := htakes.suffix
        exact ih (Nat.lt_of_le_of_lt hsuffix.length_le hs) (fun t ht => heof t (hsuffix.subset ht))
          (hbehind hkind htakes hblocked) h
      · obtain ⟨hm, -⟩ := (statement_follows hin).reads (fun _ => id) hs hblocked ha
        rcases h with ⟨u, r, hu, htakes, h⟩ | ⟨u, hu, hkind, -⟩
        · have hsuffix := htakes.suffix.trans ha.suffix
          exact ih (Nat.lt_of_le_of_lt hsuffix.length_le hs)
            (fun t ht => heof t (hsuffix.subset ht)) (hbehind hu htakes hm) h
        · exact heof u (ha.suffix.subset (mem_of_peek hu (hnonempty hm))) hkind

/-! ### Prefixes -/

/-- Where the tokens end with a semicolon, another script is read on behind them. -/
theorem statements_before {limit : Nat} {f : Position → Position} {more : List Token}
    {stop : Except Fault Position} (hin : inner.Follows (.before f more stop) limit inner')
    (hs : s.tokens.length < limit) (heof : ∀ t ∈ s.tokens, t.kind ≠ .eof)
    (hend : (Embedding.before f more stop).fits s ∨ s.tokens = [])
    (h : (statements inner n found).Reads s v s') {k n' : Nat} (hn : s.tokens.length + k ≤ n') :
  ∃ n'' last, k ≤ n'' ∧
    (statements inner' n' (move f found)).eval ((Embedding.before f more stop).tape s) =
      (statements inner' n'' (move f v).reverse).eval ⟨more, stop, last⟩
  := by
  have hnonempty : ∀ {s : Tape}, (Embedding.before f more stop).fits s → s.tokens ≠ [] := by
    rintro s ⟨front, t, htokens, -⟩ hnil
    simp [hnil] at htokens
  induction n generalizing found s n' with
  | zero => simp [statements] at h
  | succ n ih =>
      -- behind a semicolon the script goes on with fewer tokens, or with those of the other tape
      have hbehind : ∀ {t : Token} {m r : Tape} {found : List Node}, t.kind = .semicolon →
          (Embedding.before f more stop).fits m → m.tokens <:+ s.tokens → m.Takes [t] r →
          (statements inner n found).Reads r v s' → ∃ n'' last, k ≤ n'' ∧
            (statements inner' (n' - 1) (move f found)).eval ((Embedding.before f more stop).tape r) =
              (statements inner' n'' (move f v).reverse).eval ⟨more, stop, last⟩ := by
        intro t m r found ht hm hsuffix htakes h
        have hlength := hsuffix.length_le
        rw [htakes.tokens_eq, List.singleton_append, List.length_cons] at hlength
        apply ih (by omega) (fun u hu => heof u ((htakes.suffix.trans hsuffix).subset hu)) _ h
          (by omega)
        rcases Embedding.fits_takes hm htakes (by simp [ht]) with hr | ⟨-, -, hr⟩
        · exact .inl hr
        · exact .inr hr
      rcases hend with hfits | hnil
      · obtain ⟨n', rfl⟩ : ∃ m, n' = m + 1 := by
          have hpos := List.length_pos_iff.mpr (hnonempty hfits)
          exact ⟨n' - 1, by omega⟩
        rcases reads_statements h with
          ⟨t, ht, hkind, -⟩ | ⟨t, m, hkind, htakes, h⟩ | ⟨t, a, m, ht, ht', ht'', ha, h⟩
        · exact absurd hkind (heof t (mem_of_peek ht (hnonempty hfits)))
        · have htape := Embedding.takes_tape hfits htakes (by simp [hkind])
          rw [statements_of_semicolon htape hkind]
          apply hbehind hkind hfits List.suffix_rfl htakes h
        · obtain ⟨hm, ha'⟩ := (statement_follows hin).reads (fun _ => id) hs hfits ha
          rcases h with ⟨u, r, hu, htakes, h⟩ | ⟨u, hu, hkind, -⟩
          · have htape := Embedding.takes_tape hm htakes (by simp [hu])
            have hpeek := (Embedding.before f more stop).peek_tape hfits s.seen_nil (by simp)
            rw [List.length_nil, ht] at hpeek
            rw [statements_of_statement hpeek ht' ht'' ha' htape hu]
            apply hbehind hu hm ha.suffix htakes h
          · exact absurd hkind (heof u (ha.suffix.subset (mem_of_peek hu (hnonempty hm))))
      · rcases reads_statements h with
          ⟨-, -, -, rfl⟩ | ⟨t, m, -, htakes, -⟩ | ⟨t, a, m, ht, ht', -, -, -⟩
        · refine ⟨n', move f s.last, by omega, ?_⟩
          have htape : (Embedding.before f more stop).tape s = ⟨more, stop, move f s.last⟩ := by
            simp [Embedding.before, hnil, move]
          rw [htape]
          simp [move]
        · have htokens := htakes.tokens_eq
          simp [hnil] at htokens
        · obtain ⟨_, -, htakes⟩ := Tape.next_of_peek ht ht'
          have htokens := htakes.tokens_eq
          simp [hnil] at htokens

end Grammar

/-! ### Texts -/

open Grammar Production

/-- The tokens of a complete text end with a semicolon. -/
theorem Tape.of_isComplete {text : String} (h : isComplete text) :
  (∃ p, (ofString text).stop = .ok p) ∧
    ∃ front t, (ofString text).tokens = front ++ [t] ∧ t.kind = .semicolon
  := by
  have hstop : ∃ p, (ofString text).stop = .ok p := by
    cases hstop : (ofString text).stop with
    | ok p => exact ⟨p, rfl⟩
    | error e =>
        have hvisible : (ofString text).stop = (Cursor.ofString text).transcript.stop :=
          congrArg Prod.snd (Cursor.ofString text).visible_eq
        have htokens := (Cursor.ofString text).tokens_eq
        rw [← hvisible, hstop] at htokens
        change Token.list text = .error e at htokens
        simp [isComplete, htokens] at h
  obtain ⟨p, hp⟩ := hstop
  obtain ⟨ts, hts, htokens⟩ := tokens_ofString hp
  simp only [isComplete, hts, decide_eq_true_eq, Option.map_eq_some_iff] at h
  obtain ⟨t, hlast, hkind⟩ := h
  obtain ⟨front, hfront⟩ := List.getLast?_eq_some_iff.mp hlast
  exact ⟨⟨p, hp⟩, front, t, htokens.trans hfront, hkind⟩

/-- A script is read on the tape of its text. -/
theorem parseScript_eq (text : String) :
  parseScript text = ((statements (.outermost ((Stream.ofString text).size + 1))
    ((Stream.ofString text).size + 1) []).eval (.ofString text)).1
  := by
  change ((script (.outermost _)).run (Stream.ofString text)).1 = _
  exact congrArg Prod.fst (Production.run_eq_eval _ _)

/-- The nodes that a script is read as stay as they are where positions are not moved. -/
theorem Grammar.move_id_of_reads {inner : Inner} {n limit : Nat} {v : List Node} {s s' : Tape}
    (hin : inner.Follows (.moved id fun _ => False) limit inner) (hn : limit ≤ n)
    (hs : s.tokens.length < limit) (h : (statements inner n []).Reads s v s') :
  move id v = v
  := by
  obtain ⟨-, hmoved⟩ :=
    (statements_follows hin trivial ⟨hn, hn⟩ []).reads (fun _ => id) hs trivial h
  change (statements inner n []).Reads (move id s) (move id v) (move id s') at hmoved
  rw [Tape.move_id, Production.Reads, h, Prod.mk.injEq, Except.ok.injEq] at hmoved
  exact hmoved.1.symm

/-- Behind a script that ends with a semicolon another one is read as if it stood alone, moved. -/
theorem Grammar.statements_append {f : Position → Position} {n n' m : Nat} {s s' r : Tape}
    {v : List Node} (h : (statements (.outermost n) n []).Reads s v s') (hn : s.tokens.length < n)
    (hm : r.tokens.length < m) (hn' : n ≤ n' ∧ s.tokens.length + m ≤ n')
    (heof : ∀ t ∈ s.tokens, t.kind ≠ .eof)
    (hend : ∃ front t, s.tokens = front ++ [t] ∧ t.kind = .semicolon) :
  ((statements (.outermost n') n' []).eval
      ⟨s.tokens ++ move f r.tokens, move f r.stop, s.last⟩).1 =
    (move f ((statements (.outermost m) m []).eval r).1).map (v ++ ·)
  := by
  have hv : move id v = v :=
    move_id_of_reads (Inner.nested_natural (.refl n) maxNesting) (Nat.le_refl n) hn h
  have hids : move id s.tokens = s.tokens := congrArg Tape.tokens s.move_id
  have hfollows : (Inner.outermost n).Follows (.before id (move f r.tokens) (move f r.stop)) n
      (.outermost n') := Inner.nested_natural ⟨Nat.le_refl n, hn'.1⟩ maxNesting
  have hnatural : (Inner.outermost m).Follows (.moved f fun _ => False) m (.outermost n') :=
    Inner.nested_natural ⟨Nat.le_refl m, by omega⟩ maxNesting
  obtain ⟨n'', last, hle, heval⟩ := statements_before hfollows hn heof (.inl hend) h hn'.2
  have htape : (Embedding.before id (move f r.tokens) (move f r.stop)).tape s =
      ⟨s.tokens ++ move f r.tokens, move f r.stop, s.last⟩ := by
    simp only [Embedding.before, hids]
    rfl
  have hmoved : ((statements (.outermost n') n'' []).eval (move f r)).1 =
      move f ((statements (.outermost m) m []).eval r).1 := by
    rcases (statements_follows hnatural trivial ⟨Nat.le_refl m, hle⟩ []).eval_move hm with
      hothers | ⟨e, s', -, hallow⟩
    · exact congrArg Prod.fst hothers
    · contradiction
  have hbehind : (⟨move f r.tokens, move f r.stop, last⟩ : Tape) = (move f r).behind last := rfl
  rw [← htape]
  change ((statements (.outermost n') n' (move id [])).eval _).1 = _
  rw [heval, hv, statements_found, List.reverse_reverse, ← hmoved, hbehind,
    ← statements_eval_behind (fun _ => query_takesFirst _) last]
  change ((statements (.outermost n') n'' [] >>= fun ns => pure (v ++ ns)).eval _).1 = _
  rw [eval_bind]
  rcases (statements (.outermost n') n'' []).eval ((move f r).behind last) with ⟨e | ns, s''⟩
  · rfl
  · rfl

/-- A complete text that is read as a script leaves what stands in the lines below it to be read by
itself, further down. -/
theorem parseScript_below {text : String} {nodes : List Node} (hcomplete : isComplete text)
    (h : parseScript text = .ok nodes) (more : String) :
  parseScript (text ++ "\n" ++ more) =
    (move (Position.below (text ++ "\n")) (parseScript more)).map (nodes ++ ·)
  := by
  obtain ⟨⟨p, hstop⟩, hend⟩ := Tape.of_isComplete hcomplete
  have heof := Tape.kind_ne_eof_of_mem_ofString text
  have hn := (Stream.ofString text).length_tape_lt
  have hm := (Stream.ofString more).length_tape_lt
  rw [parseScript_eq] at h
  have hreads : (statements (.outermost _) _ []).Reads (.ofString text) nodes _ :=
    Prod.ext h rfl
  have hvalid : ∀ t ∈ (Tape.ofString text).tokens, t.kind ≠ .unrecognized := by
    intro t ht hkind
    exact not_reads_statements (Inner.nested_natural (.refl _) maxNesting) hn heof ⟨t, ht, hkind⟩
      hreads
  have hsize : (Stream.ofString (text ++ "\n" ++ more)).size =
      (Stream.ofString text).size + 1 + (Stream.ofString more).size := by
    simp [Stream.size, Stream.ofString, Cursor.ofString, Cursor.ofList]
    omega
  rw [parseScript_eq, parseScript_eq more, Tape.ofString_append hstop hvalid]
  change (Tape.ofString text).tokens.length < _ at hn
  apply statements_append hreads hn hm _ heof hend
  omega

/-- **Scripts in pieces.**  If a text is complete and is read as a script, then a text that follows it
in the next line is read as if it stood alone, further down: its statements come after those of the
first, and if it is refused, so is the whole, for the same cause. -/
theorem parseScript_append {text : String} {nodes : List Node} (hcomplete : isComplete text)
    (h : parseScript text = .ok nodes) (more : String) :
  (∀ others, parseScript more = .ok others →
    parseScript (text ++ "\n" ++ more) =
      .ok (nodes ++ move (Position.below (text ++ "\n")) others)) ∧
  ∀ e, parseScript more = .error e →
    ∃ e', parseScript (text ++ "\n" ++ more) = .error e' ∧
      e' = move (Position.below (text ++ "\n")) e ∧
      e'.cause.kind = e.cause.kind ∧ e'.cause.message = e.cause.message
  := by
  have hbelow := parseScript_below hcomplete h more
  constructor
  · intro others hothers
    rw [hbelow, hothers]
    rfl
  · intro e he
    rw [hbelow, he]
    exact ⟨_, rfl, rfl, Cause.kind_move _ _, Cause.message_move _ _⟩

/-- A script of two tables may be read in two pieces. -/
theorem parseScript_append_tables :
  ∃ nodes others, isComplete "TABLE a;" ∧ parseScript "TABLE a;" = .ok nodes ∧
    parseScript "TABLE b" = .ok others ∧
    parseScript ("TABLE a;" ++ "\n" ++ "TABLE b") =
      .ok (nodes ++ move (Position.below ("TABLE a;" ++ "\n")) others)
  := by
  have hcomplete : isComplete "TABLE a;" := by decide +kernel
  have hok : (parseScript "TABLE a;").isOk ∧ (parseScript "TABLE b").isOk := by decide +kernel
  cases h : parseScript "TABLE a;" with
  | error e => simp [h, Except.isOk, Except.toBool] at hok
  | ok nodes =>
      cases h' : parseScript "TABLE b" with
      | error e => simp [h', Except.isOk, Except.toBool] at hok
      | ok others =>
          exact ⟨nodes, others, hcomplete, rfl, rfl,
            (parseScript_append hcomplete h "TABLE b").1 others h'⟩

end SqlFront
