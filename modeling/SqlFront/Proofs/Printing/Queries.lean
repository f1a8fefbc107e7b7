import SqlFront.Proofs.Grammar.QueryMirrors
import SqlFront.Proofs.Grammar.Whole
import SqlFront.Proofs.Nesting.Depth
import SqlFront.Proofs.Printing.Lines

/-!
# Queries before what ends them

`q.Written levels ws` says that the words `ws` are read as the query `q`, with so many levels of
nesting, wherever a query may end behind them: at the end of the text, before a closing parenthesis,
or before `TO` and a path.  The words of a text that is read as a query are such words
(`Query.exists_written`), as a reading does not see which of these ends a query.
-/

namespace SqlFront

open Grammar Production Token

variable {inner : Inner} {bound levels : Nat} {ws rest : List String} {q : Query} {s m : Tape}

/-- Wherever a query may end behind the words, they are read as the query. -/
def Query.Written (levels : Nat) (q : Query) (ws : List String) : Prop :=
  ∀ bound rest, ws.length < bound → Tape.Closing (rest.map ofWord) →
    (Inner.nested bound levels).query.Reads (.ofWords (ws ++ rest)) q (.ofWords rest)

theorem Token.kind_ofWord_ne_eof (w : String) :
  (ofWord w).kind ≠ .eof
  := by
  cases hw : kindOf? w with
  | none =>
      rw [ofWord, hw]
      exact Kind.noConfusion
  | some kind =>
      rw [kind_ofWord hw]
      exact ne_eof_of_kindOf? hw

/-- Words mirror themselves where something that ends a query stands behind them. -/
theorem Mirror.pairs_ofWords (closing : Tape.Closing (rest.map ofWord)) (ws : List String) :
  (Mirror.mk .exact (rest.map ofWord) closing).Pairs (.ofWords ws) (.ofWords (ws ++ rest))
  where
  tokens := ⟨ws.map ofWord, List.map_append, List.forall₂_same.mpr fun _ _ => rfl⟩
  visible t ht := by
    obtain ⟨w, -, rfl⟩ := List.mem_map.mp ht
    apply kind_ofWord_ne_eof
  last := rfl
  stop _ := rfl
  ahead u hu := by
    obtain ⟨w, -, rfl⟩ := List.mem_map.mp (List.mem_of_mem_head? hu)
    rfl
  described := trivial

/-- A query is read alike where the words end and where something follows that ends a query. -/
theorem Grammar.reads_query_before
    (h : (Inner.nested bound levels).query.Reads (.ofWords ws) q (.ofWords []))
    (closing : Tape.Closing (rest.map ofWord)) :
  (Inner.nested bound levels).query.Reads (.ofWords (ws ++ rest)) q (.ofWords rest)
  := by
  have hagrees := (Inner.nested_mirrored bound levels).query _ _
    (Mirror.pairs_ofWords closing ws) (Tape.seen_nil _)
  have hstop := stop_eval (Inner.nested bound levels).query (.ofWords (ws ++ rest))
  rw [h] at hagrees
  rw [Reads]
  generalize (Inner.nested bound levels).query.eval (.ofWords (ws ++ rest)) = y at hagrees hstop
  cases hagrees with
  | @value _ b _ r related pairs =>
      obtain ⟨tokens, stop, last⟩ := r
      obtain rfl : q = b := related
      obtain rfl : tokens = rest.map ofWord := pairs.tokens_of_nil rfl
      obtain rfl : last = .point .start := pairs.last
      obtain rfl : stop = .ok .start := hstop
      rfl

/-- A statement that is a query begins like one. -/
theorem Grammar.query_of_statement (h : (statement inner).Reads (.ofWords ws) (.query q) s) :
  inner.query.Reads (.ofWords ws) q s ∧ (beginsQuery (leading ws) ∨ leading ws = .leftParen)
  := by
  obtain ⟨t, ht, hkind, -⟩ := reads_peek_words ws
  obtain ⟨u, m, hu, hstatement⟩ := reads_bind.mp h
  obtain ⟨rfl, rfl⟩ : t = u ∧ Tape.ofWords ws = m := by
    rw [Reads, ht] at hu
    simpa using hu
  rw [← hkind]
  split at hstatement
  all_goals first
    | simp at hstatement; done
    | next hfirst =>
        rw [hfirst]
        exact ⟨by simpa using hstatement, by decide⟩

/-- A text whose visible tokens end with a semicolon is complete. -/
theorem Tape.isComplete_of_tokens {text : String} {p : Position} {front : List Token} {t : Token}
    (hstop : (ofString text).stop = .ok p) (htokens : (ofString text).tokens = front ++ [t])
    (ht : t.kind = .semicolon) :
  isComplete text
  := by
  obtain ⟨ts, hts, hvisible⟩ := tokens_ofString hstop
  simp [isComplete, hts, ← hvisible, htokens, ht]

/-- Where the end of the text comes next there are no more tokens. -/
theorem Tape.forget_of_end {t : Token} (hvisible : ∀ t ∈ s.tokens, t.kind ≠ .eof)
    (ht : s.peek 0 = .ok t) (heof : t.kind = .eof) :
  s.tokens = [] ∧ (∃ p, s.stop = .ok p) ∧ forget s = .ofWords []
  := by
  obtain ⟨tokens, stop, last⟩ := s
  obtain rfl : tokens = [] := by
    by_contra hne
    exact hvisible t (mem_of_peek ht hne) heof
  cases stop with
  | error e => contradiction
  | ok p => exact ⟨rfl, ⟨p, rfl⟩, rfl⟩

/-- A statement that a text consists of is read up to the end of the text, unless the text is
complete, and there is nothing unrecognized in it. -/
theorem Grammar.statement_of_within {text : String} {a : Statement}
    (h : parseStatementWithin levels text = .ok (.statement a)) (hopen : isComplete text = false) :
  ∃ m p, (statement (.nested ((Stream.ofString text).size + 1) levels)).Reads (.ofString text) a m ∧
    forget m = .ofWords [] ∧ (Tape.ofString text).stop = .ok p ∧
    ∀ t ∈ (Tape.ofString text).tokens, t.kind ≠ .unrecognized
  := by
  rw [parseStatementWithin_eq] at h
  obtain ⟨s, hs⟩ : ∃ s, (soleStatement (.nested ((Stream.ofString text).size + 1) levels)).Reads
      (.ofString text) (.statement a) s := ⟨_, Prod.ext h rfl⟩
  obtain ⟨b, m, hb, hstatement, u, hu, heof, hends⟩ := reads_soleStatement hs
  obtain rfl : a = b := Node.statement.inj hb
  have hvisible := Tape.kind_ne_eof_of_mem_ofString text
  have hvalid := Entry.recognized_of_reads (Inner.nested_natural (.refl _) levels)
    (Stream.ofString text).length_tape_lt hvisible .statement (reads_map.mpr ⟨_, hs, rfl⟩)
  obtain ⟨hnil, ⟨p, hp⟩, hend⟩ :=
    Tape.forget_of_end (fun t ht => hvisible t (hs.suffix.subset ht)) hu heof
  have hstop : (Tape.ofString text).stop = .ok p := by
    rw [← hs.stop_eq, hp]
  rcases hends with rfl | ⟨t, ht, htakes⟩
  · exact ⟨m, p, hstatement, hend, hstop, hvalid⟩
  · obtain ⟨front, hfront⟩ := hstatement.suffix
    rw [htakes.tokens_eq, hnil] at hfront
    rw [Tape.isComplete_of_tokens hstop hfront.symm ht] at hopen
    contradiction

/-- A text that is read as a query, and does not end with a semicolon, consists of words that the
query is written with. -/
theorem Query.exists_written {text : String}
    (h : parseStatementWithin levels text = .ok (.statement (.query q)))
    (hopen : isComplete text = false) :
  ∃ ws, AreTokens ws ∧ forget (Tape.ofString text) = .ofWords ws ∧
    (beginsQuery (leading ws) ∨ leading ws = .leftParen) ∧ (forget q).Written levels ws
  := by
  obtain ⟨m, p, hstatement, hend, hstop, hvalid⟩ := statement_of_within h hopen
  obtain ⟨ws, hws, htape⟩ := Tape.exists_words hstop hvalid
  have hlimit := (Stream.ofString text).length_tape_lt
  rw [show (Stream.ofString text).tape.tokens.length = ws.length from
    Tape.length_of_forget htape] at hlimit
  have hwords : ∀ bound, ws.length < bound →
      (statement (.nested bound levels)).Reads (.ofWords ws) (.query (forget q)) (.ofWords []) := by
    intro bound hbound
    have hfollows : (Inner.nested ((Stream.ofString text).size + 1) levels).Follows
        (.moved (fun _ => .start) fun _ => False) (ws.length + 1) (.nested bound levels) :=
      Inner.nested_natural ⟨hlimit, hbound⟩ levels
    obtain ⟨-, hreads⟩ := (statement_follows hfollows).reads (fun _ => id)
      (by rw [Tape.length_of_forget htape]; omega) trivial hstatement
    change (statement (.nested bound levels)).Reads (forget (Tape.ofString text))
      (.query (forget q)) (forget m) at hreads
    rwa [htape, hend] at hreads
  refine ⟨ws, hws, htape, (query_of_statement (hwords _ (Nat.lt_succ_self _))).2, ?_⟩
  intro bound rest hbound closing
  exact reads_query_before (query_of_statement (hwords bound hbound)).1 closing

end SqlFront
