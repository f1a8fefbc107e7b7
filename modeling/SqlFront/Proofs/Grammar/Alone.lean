import SqlFront.Proofs.Grammar.Entries
import SqlFront.Proofs.Grammar.Scripts
import SqlFront.Proofs.Tokens.Cut

/-!
# Statements that stand alone

The region of a statement of a script slices out a text that consists of that statement
(`parseScript_alone`).  The text is cut behind a token that ends the statement, where its tokens stay
what they are; the statement is read up to there, and does not see whether a semicolon follows or
the text ends.  And a text that consists of a statement is a script of that statement alone.
-/

namespace SqlFront

namespace Grammar

open Production

variable {inner : Inner} {n : Nat} {found v : List Node} {s s' m r : Tape} {t u : Token}
  {a : Statement} {node : Node}

/-! ### The regions of statements -/

/-- A statement has the region of the tokens that it is read from. -/
theorem Rules.StatementRule.span_eq {ts : List Token} (h : (within maxNesting).StatementRule a ts) :
  ts ≠ [] ∧ a.span = Span.over ts
  := by
  cases h with
  | merge isMerge =>
      cases isMerge
      exact ⟨by simp, rfl⟩
  | load isLoad =>
      cases isLoad
      exact ⟨by simp, rfl⟩
  | exportRows isExport =>
      cases isExport
      exact ⟨by simp, rfl⟩
  | query isQuery =>
      have hne := QueryRule.ne_nil isQuery
      cases isQuery
      exact ⟨hne, rfl⟩
  | verbatim isVerbatim =>
      cases isVerbatim
      exact ⟨by simp, rfl⟩

/-! ### Statements of scripts -/

/-- What a script is read as has been found before, or it is a statement that is read from some token
on up to the end of a statement. -/
theorem exists_reads_of_mem (h : (statements inner n found).Reads s v s') (hnode : node ∈ v) :
  node ∈ found ∨ ∃ a r m t, node = .statement a ∧ r.tokens <:+ s.tokens ∧ r.stop = s.stop ∧
    (statement inner).Reads r a m ∧ m.peek 0 = .ok t ∧ t.kind.ends
  := by
  induction n generalizing found s with
  | zero => simp [statements] at h
  | succ n ih =>
      rcases reads_statements h with
        ⟨t, -, -, rfl⟩ | ⟨t, m, -, htakes, h⟩ | ⟨t, a, m, -, -, -, ha, h⟩
      · exact .inl (List.mem_reverse.mp hnode)
      · rcases ih h with hfound | ⟨b, r, m', u, hb, hr, hstop, hreads⟩
        · exact .inl hfound
        · exact .inr ⟨b, r, m', u, hb, hr.trans htakes.suffix, hstop.trans htakes.stop_eq, hreads⟩
      · rcases h with ⟨u, r, hu, htakes, h⟩ | ⟨u, hu, hkind, rfl⟩
        · have hends := Kind.ends_iff.mpr (.inl hu)
          rcases ih h with hfound | ⟨b, r', m', w, hb, hr, hstop, hreads⟩
          · rcases List.mem_cons.mp hfound with rfl | hfound
            · exact .inr ⟨a, s, m, u, rfl, List.suffix_rfl, rfl, ha, htakes.peek_zero, hends⟩
            · exact .inl hfound
          · have hstop' := hstop.trans (htakes.stop_eq.trans ha.stop_eq)
            exact .inr ⟨b, r', m', w, hb, hr.trans (htakes.suffix.trans ha.suffix), hstop', hreads⟩
        · rcases List.mem_cons.mp (List.mem_reverse.mp hnode) with rfl | hfound
          · exact .inr ⟨a, s, m, u, rfl, List.suffix_rfl, rfl, ha, hu, Kind.ends_iff.mpr (.inr hkind)⟩
          · exact .inl hfound

/-- A statement that the end of the text follows is all that the text consists of. -/
theorem soleStatement_of_statement (h : (statement inner).Reads s a m) (hu : m.peek 0 = .ok u)
    (heof : u.kind = .eof) :
  (soleStatement inner).Reads s (.statement a) m
  := by
  refine reads_bind.mpr ⟨a, m, h, (reads_accept_bind (by decide)).mpr (.inr ⟨u, hu, ?_, ?_⟩)⟩
  · rw [heof]
    decide
  · exact reads_bind.mpr ⟨(), m, reads_theEnd.mpr ⟨⟨u, hu, heof⟩, rfl⟩, reads_pure.mpr ⟨rfl, rfl⟩⟩

/-- A text consists of a statement that its end follows, perhaps behind a semicolon. -/
theorem reads_soleStatement (h : (soleStatement inner).Reads s node s') :
  ∃ a m, node = .statement a ∧ (statement inner).Reads s a m ∧
    ∃ u, s'.peek 0 = .ok u ∧ u.kind = .eof ∧ (m = s' ∨ ∃ t, t.kind = .semicolon ∧ m.Takes [t] s')
  := by
  obtain ⟨a, m, ha, h⟩ := reads_bind.mp h
  rcases (reads_accept_bind (by decide)).mp h with ⟨t, r, ht, htakes, h⟩ | ⟨t, -, -, h⟩
  · simp only [reads_bind, reads_theEnd, reads_pure] at h
    obtain ⟨_, r', ⟨⟨u, hu, heof⟩, rfl⟩, rfl, rfl⟩ := h
    exact ⟨a, m, rfl, ha, u, hu, heof, .inr ⟨t, ht, htakes⟩⟩
  · simp only [reads_bind, reads_theEnd, reads_pure] at h
    obtain ⟨_, r', ⟨⟨u, hu, heof⟩, rfl⟩, rfl, rfl⟩ := h
    exact ⟨a, _, rfl, ha, u, hu, heof, .inl rfl⟩

/-- A statement begins with a token other than a semicolon. -/
theorem peek_of_statement (h : (statement inner).Reads s a m) :
  ∃ t, s.peek 0 = .ok t ∧ t.kind ≠ .eof ∧ t.kind ≠ .semicolon
  := by
  obtain ⟨t, m', hpeek, hstatement⟩ := reads_bind.mp h
  obtain ⟨ht, rfl⟩ := reads_peek.mp hpeek
  refine ⟨t, ht, ?_, ?_⟩
  · intro hkind
    simp [hkind] at hstatement
  · intro hkind
    simp [hkind] at hstatement

/-- What a text that consists of a statement is read as is a script of that statement alone. -/
theorem statements_of_soleStatement (h : (soleStatement inner).Reads s node s') :
  (statements inner (n + 2) []).Reads s [node] s'
  := by
  obtain ⟨a, m, rfl, ha, u, hu, heof, hends⟩ := reads_soleStatement h
  obtain ⟨t, ht, hne, hsemicolon⟩ := peek_of_statement ha
  have hlast : ∀ k, (statements inner (k + 1) [.statement a]).Reads s' [.statement a] s' := by
    intro k
    refine reads_bind.mpr ⟨u, s', reads_peek.mpr ⟨hu, rfl⟩, ?_⟩
    simp only [heof]
    exact reads_pure.mpr ⟨rfl, rfl⟩
  rcases hends with rfl | ⟨v, hv, htakes⟩
  · have hno : ¬ u.kind = .semicolon := by
      rw [heof]
      decide
    have hend : theEnd.Reads m () m := reads_theEnd.mpr ⟨⟨u, hu, heof⟩, rfl⟩
    rw [Reads] at ha hend ⊢
    simp only [statements, eval_bind, peek, eval, Lookahead.distance, ht, ha, accept, hu, hno,
      if_false, Bool.false_eq_true, hend]
    rfl
  · rw [Reads, statements_of_statement ht hne hsemicolon ha htakes hv]
    exact hlast n

/-! ### Statements whose tokens stand alone -/

/-- What was taken before a statement makes no difference. -/
theorem reads_statement_behind (hquery : inner.query.TakesFirst s)
    (h : (statement inner).Reads s a m) (b : Span) :
  (statement inner).Reads (s.behind b) a m
  := by
  rcases statement_takesFirst hquery b with heq | ⟨e, heq, -⟩
  · rwa [Reads, heq]
  · rw [Reads, heq] at h
    simp at h

/-- Where the tokens of a statement stand alone, at other places, they are the statement, there. -/
theorem soleStatement_alone {f : Position → Position} {n k : Nat} {ts : List Token} {p : Position}
    (h : (statement (.outermost n)).Reads s a m) (htakes : s.Takes ts m) (ht : m.peek 0 = .ok t)
    (hends : t.kind.ends) (hn : ts.length < n) (hk : ts.length < k) (b : Span) :
  ∃ r, (soleStatement (.outermost k)).Reads (move f ⟨ts, .ok p, b⟩) (.statement (move f a)) r
  := by
  have hcut : s.Cut ⟨ts, .ok p, s.last⟩ m.tokens :=
    ⟨htakes.tokens_eq, rfl, ⟨p, rfl⟩, t, (htakes.peek_add 0).trans ht, hends⟩
  obtain ⟨r, hr, hreads⟩ := (statement_tidy (Inner.nested_tidy n maxNesting)).cuts _ _ _ _ _ hcut
    s.seen_nil h (Nat.le_refl _)
  have hbehind := reads_statement_behind (query_takesFirst _) hreads b
  have hin : (Inner.outermost n).Follows (.moved f fun _ => False) (ts.length + 1) (.outermost k) :=
    Inner.nested_natural ⟨hn, hk⟩ maxNesting
  obtain ⟨-, hmoved⟩ := (statement_follows hin).reads (fun _ => id) (Nat.lt_succ_self _) trivial
    hbehind
  have hnil : r.tokens = [] := List.append_left_eq_self.mp hr.tokens_eq.symm
  obtain ⟨q, hq⟩ := hr.stop_eq
  have hend : (move f r).peek 0 = .ok (.eof (f q)) := by
    rw [Tape.peek_move, Tape.peek, hnil, hq]
    rfl
  exact ⟨_, soleStatement_of_statement hmoved hend rfl⟩

end Grammar

/-! ### Texts -/

open Grammar Production

variable {text : String} {n : Nat}

theorem parseStatement_eq_ok {node : Node} (hn : (Tape.ofString text).tokens.length < n) :
  parseStatement text = .ok node ↔
    ∃ s, (soleStatement (.outermost n)).Reads (.ofString text) node s
  := by
  rw [parseStatement_eq hn]
  constructor
  · intro h
    exact ⟨_, Prod.ext h rfl⟩
  · rintro ⟨s, h⟩
    rw [h]

theorem parseScript_eq_ok {nodes : List Node} (hn : (Tape.ofString text).tokens.length < n) :
  parseScript text = .ok nodes ↔ ∃ s, (script (.outermost n)).Reads (.ofString text) nodes s
  := by
  rw [← parseAs_script, parseAs_eq .script hn, Entry.production]
  constructor
  · intro h
    exact ⟨_, Prod.ext h rfl⟩
  · rintro ⟨s, h⟩
    rw [h]

/-- **Every statement of a script stands alone.**  The region of a statement of a script slices out a
text that consists of the statement, counted from its beginning.  And a text that consists of a
statement is the script of that statement alone. -/
theorem parseScript_alone (text : String) :
  (∀ nodes, parseScript text = .ok nodes → ∀ node ∈ nodes, ∃ w, node.span.slice? text = some w ∧
    parseStatement w = .ok (move (.since node.span.start) node)) ∧
  ∀ node, parseStatement text = .ok node → parseScript text = .ok [node]
  := by
  obtain ⟨n, hn⟩ : ∃ n, (Tape.ofString text).tokens.length < n := ⟨_, Nat.lt_succ_self _⟩
  constructor
  · intro nodes h node hnode
    obtain ⟨s, hreads⟩ := (parseScript_eq_ok hn).mp h
    obtain ⟨a, r, m, t, rfl, ⟨front, hfront⟩, hstop, ha, ht, hends⟩ :=
      (exists_reads_of_mem hreads hnode).resolve_left List.not_mem_nil
    obtain ⟨used, hused, hrule⟩ := statement_obeys (Inner.nested_obeys n maxNesting) ha
    obtain ⟨hne, hspan⟩ := hrule.span_eq
    have htokens : (Tape.ofString text).tokens = front ++ (used ++ m.tokens) := by
      rw [← hfront, hused.tokens_eq]
    have hlength : used.length < n := by
      rw [htokens, List.length_append, List.length_append] at hn
      omega
    have hpeek : (⟨m.tokens, (Tape.ofString text).stop, m.last⟩ : Tape).peek 0 = .ok t := by
      rw [← hstop, ← hused.stop_eq]
      exact ht
    obtain ⟨w, p, hslice, hw⟩ := Tape.exists_slice htokens hne hpeek (Kind.ends_iff.mp hends)
    obtain ⟨s', hs'⟩ := soleStatement_alone (f := .since a.span.start) (p := p) ha hused ht hends
      hlength hlength (.point (Span.over used).start)
    have hbound : (Tape.ofString w).tokens.length < n := by
      rw [hw]
      change (List.map _ used).length < n
      rwa [List.length_map]
    rw [← hspan] at hslice hs' hw
    rw [← hw] at hs'
    exact ⟨w, hslice, (parseStatement_eq_ok hbound).mpr ⟨s', hs'⟩⟩
  · intro node h
    have hmore := Nat.lt_add_right 2 hn
    obtain ⟨s, hreads⟩ := (parseStatement_eq_ok hmore).mp h
    exact (parseScript_eq_ok hmore).mpr ⟨s, statements_of_soleStatement hreads⟩

/-- Each of two statements of a script stands alone, the second from its own line on. -/
theorem parseScript_alone_tables :
  ∃ nodes, parseScript "TABLE a;\n TABLE b" = .ok nodes ∧ nodes.length = 2 ∧
    ∀ node ∈ nodes, ∃ w, node.span.slice? "TABLE a;\n TABLE b" = some w ∧
      parseStatement w = .ok (move (.since node.span.start) node)
  := by
  have hlength : (parseScript "TABLE a;\n TABLE b").map List.length = .ok 2 := by decide +kernel
  cases h : parseScript "TABLE a;\n TABLE b" with
  | error e => simp [h, Except.map] at hlength
  | ok nodes =>
      rw [h] at hlength
      exact ⟨nodes, rfl, Except.ok.inj hlength, (parseScript_alone _).1 nodes h⟩

end SqlFront
