import SqlFront.Proofs.Grammar.Alone
import SqlFront.Proofs.Grammar.Layout
import SqlFront.Proofs.Sessions.Readings
import SqlFront.Proofs.Tokens.Tiling

/-!
# Texts are read as a whole

What is read without a fault is read from all of a text (`parseAs_whole`): the text has no fault
itself, each of its visible tokens has been taken, and none of them is unrecognized.  So each
back-quoted name ends at the first back-quote that is not doubled; where a name ends earlier, because
nothing closes it further on, an unrecognized back-quote follows.
-/

namespace SqlFront

/-! ### Back-quoted names -/

namespace Token

/-- The number of characters up to and with the closing back-quote of a name, if a doubled back-quote
always belongs to the name. -/
def undoubledLength? : List Char → Option Nat
  | [] => none
  | '\x60' :: '\x60' :: rest => (undoubledLength? rest).map (· + 2)
  | '\x60' :: _ => some 1
  | _ :: rest => (undoubledLength? rest).map (· + 1)

/-- The token is a back-quoted name that ends at the first back-quote that is not doubled. -/
def EndsUndoubled (text : String) (t : Token) : Prop :=
  ∃ before name after, text.toList = before ++ '\x60' :: (name ++ after) ∧
    t.span = ⟨.following before, .following (before ++ '\x60' :: name)⟩ ∧
    undoubledLength? (name ++ after) = some name.length

/-- A name ends at the first back-quote that is not doubled, or a back-quote follows that nothing
closes. -/
theorem undoubledLength?_or {cs : List Char} {n : Nat} (h : backQuotedLength? cs = some n) :
  undoubledLength? cs = some n ∨ ∃ tail, cs.drop n = '\x60' :: tail ∧ backQuotedLength? tail = none
  := by
  fun_induction backQuotedLength? cs generalizing n with
  | case1 => contradiction
  | case2 rest ih =>
      cases hrest : backQuotedLength? rest with
      | none =>
          right
          rw [hrest, Option.elim_none, Option.some.injEq] at h
          exact ⟨rest, by rw [← h]; rfl, hrest⟩
      | some m =>
          rw [hrest, Option.elim_some, Option.some.injEq] at h
          subst h
          rcases ih hrest with hsame | ⟨tail, hdrop, hnone⟩
          · left
            rw [undoubledLength?, hsame, Option.map_some]
          · exact .inr ⟨tail, by rw [List.drop_succ_cons, List.drop_succ_cons, hdrop], hnone⟩
  | case3 rest hrest =>
      left
      rw [undoubledLength?, h]
      exact hrest
  | case4 c rest hdouble hc ih =>
      obtain ⟨m, hm, rfl⟩ := Option.map_eq_some_iff.mp h
      rcases ih hm with hsame | ⟨tail, hdrop, hnone⟩
      · left
        rw [undoubledLength?, hsame, Option.map_some]
        · exact hdouble
        · exact hc
      · exact .inr ⟨tail, by rw [List.drop_succ_cons, hdrop], hnone⟩

end Token

namespace Cursor

variable {text : String} {before : List Char} {c d : Cursor} {t : Token} {ts : List Token}

theorem mem_of_mem_visible (h : c.tokens = .ok ts) (ht : t ∈ c.visible.1) :
  t ∈ ts
  := by
  rw [visible_eq] at ht
  rw [tokens_eq] at h
  obtain ⟨p, -, rfl⟩ := map_eq_ok_iff.mp h
  exact List.mem_append_left _ (List.mem_filter.mp ht).1

/-- Where no unrecognized token follows, a back-quoted name ends at the first back-quote that is not
doubled. -/
theorem endsUndoubled_of_next (hplace : c.position = .following before)
    (htext : text.toList = before ++ c.rest) (h : c.next = .ok (t, d))
    (hkind : t.kind = .quotedIdentifier) (hvalid : ∀ u ∈ d.visible.1, u.kind ≠ .unrecognized) :
  t.EndsUndoubled text
  := by
  obtain ⟨_ | ⟨x, cs⟩, p⟩ := c
  · simp only [next, Except.ok.injEq, Prod.mk.injEq] at h
    rw [← h.1] at hkind
    contradiction
  · obtain ⟨kind, n, hfound, rfl, rfl⟩ := next_cons_eq_ok_iff.mp h
    obtain rfl : kind = .quotedIdentifier := hkind
    obtain ⟨rfl, hclosed⟩ := Token.closed_of_measure hfound
    have hundoubled : Token.undoubledLength? cs = some n := by
      rcases Token.undoubledLength?_or hclosed with hsame | ⟨tail, htail, hnone⟩
      · exact hsame
      · obtain ⟨u, hu, hkind⟩ : ∃ u ∈ (skip ⟨'\x60' :: cs, p⟩ (n + 1)).visible.1,
            u.kind = .unrecognized := unrecognized_of_backQuote htail hnone
        exact absurd hkind (hvalid u hu)
    have hlength : (cs.take n).length = n := List.length_take_of_le (Token.measure_le hfound)
    refine ⟨before, cs.take n, cs.drop n, ?_, ?_, ?_⟩
    · rw [List.take_append_drop]
      exact htext
    · obtain rfl : p = .following before := hplace
      rw [← Position.afterAll_following]
      rfl
    · rw [List.take_append_drop, hundoubled, hlength]

/-- Where no token is unrecognized, every back-quoted name ends at the first back-quote that is not
doubled. -/
theorem endsUndoubled_of_tokens (hplace : c.position = .following before)
    (htext : text.toList = before ++ c.rest) (h : c.tokens = .ok ts)
    (hvalid : ∀ t ∈ ts, t.kind ≠ .unrecognized) :
  ∀ t ∈ ts, t.kind = .quotedIdentifier → t.EndsUndoubled text
  := by
  fun_induction Cursor.tokens c generalizing before ts with
  | case1 c hrest =>
      simp only [Except.ok.injEq] at h
      subst h
      simp [Token.eof]
  | case2 c hrest e he => simp at h
  | case3 c hrest t d hnext ih =>
      obtain ⟨piece, -, -, -, hplace', htext'⟩ := isCut_of_next hplace htext hrest hnext
      obtain ⟨us, hd, rfl⟩ := map_eq_ok_iff.mp h
      rw [List.forall_mem_cons] at hvalid
      intro u hu hkind
      rcases List.mem_cons.mp hu with rfl | hu
      · apply endsUndoubled_of_next hplace htext hnext hkind
        intro v hv
        exact hvalid.2 v (mem_of_mem_visible hd hv)
      · exact ih hplace' htext' hd hvalid.2 u hu hkind

end Cursor

/-! ### Streams that are read to their end -/

namespace Stream

/-- All of the text has been read, and all visible tokens have been taken. -/
def Exhausted (s : Stream) : Prop := s.ahead = [] ∧ s.cursor.rest = []

theorem exhausted_of_peek {s s' : Stream} {t : Token} (heof : ∀ u ∈ s.tape.tokens, u.kind ≠ .eof)
    (h : s.peek 0 = (.ok t, s')) (ht : t.kind = .eof) :
  s'.Exhausted
  := by
  obtain ⟨htape, hend⟩ := demand_spec 1 s
  simp only [peek, Nat.zero_add] at h
  rcases hdemand : s.demand 1 with ⟨_ | e, r⟩ <;> rw [hdemand] at h htape hend
  · obtain ⟨htoken, rfl⟩ := Prod.mk.inj h
    simp only at hend htape
    have hahead : r.ahead = [] := by
      cases hahead : r.ahead with
      | nil => rfl
      | cons u us =>
          obtain rfl : u = t := by simpa [hahead] using htoken
          refine absurd ht (heof u ?_)
          rw [← htape]
          simp [tape, hahead]
    exact ⟨hahead, hend.resolve_left (by simp [hahead])⟩
  · simp at h

end Stream

/-! ### Productions that read to the end -/

namespace Production

variable {α β : Type} {p : Production α} {f : α → Production β}

/-- Whatever the production yields, the stream is exhausted then. -/
def Exhausts (p : Production α) : Prop :=
  ∀ s a s', (∀ u ∈ s.tape.tokens, u.kind ≠ .eof) → p.run s = (.ok a, s') → s'.Exhausted

theorem exhausts_bind (h : ∀ a, (f a).Exhausts) :
  (p >>= f).Exhausts
  := by
  intro s b s' heof hrun
  rw [run_bind] at hrun
  rcases hp : p.run s with ⟨e | a, m⟩ <;> rw [hp] at hrun
  · simp at hrun
  · apply h a m b s' _ hrun
    intro u hu
    apply heof u
    exact (reads_of_run hp).suffix.subset hu

theorem Exhausts.map (h : p.Exhausts) (g : α → β) :
  (g <$> p).Exhausts
  := by
  change (p >>= fun a => pure (g a)).Exhausts
  intro s b s' heof hrun
  rw [run_bind] at hrun
  rcases hp : p.run s with ⟨e | a, m⟩ <;> rw [hp] at hrun
  · simp at hrun
  · obtain rfl : m = s' := congrArg Prod.snd hrun
    exact h s a m heof hp

theorem exhausts_fail (cause : Token → Cause) :
  (fail (α := α) cause).Exhausts
  := by
  intro s a s' _ hrun
  simp only [run] at hrun
  rcases hpeek : s.peek 0 with ⟨e | t, r⟩ <;> rw [hpeek] at hrun <;> simp at hrun

/-- Where the end of the text is seen nothing more may be done. -/
theorem exhausts_look {go : Token → Production α}
    (hend : ∀ t, t.kind = .eof → ∃ a, go t = pure a) (hgo : ∀ t, t.kind ≠ .eof → (go t).Exhausts) :
  (look .first go).Exhausts
  := by
  intro s a s' heof hrun
  simp only [run, Lookahead.distance] at hrun
  have htape := (s.peek_tape 0).2
  rcases hpeek : s.peek 0 with ⟨e | t, r⟩ <;> rw [hpeek] at hrun htape
  · simp at hrun
  · by_cases ht : t.kind = .eof
    · obtain ⟨b, hb⟩ := hend t ht
      simp only [hb] at hrun
      obtain rfl : r = s' := congrArg Prod.snd hrun
      exact Stream.exhausted_of_peek heof hpeek ht
    · apply hgo t ht r a s' _ hrun
      rw [htape]
      exact heof

theorem exhausts_peek_bind {g : Token → Production α}
    (hend : ∀ t, t.kind = .eof → ∃ a, g t = pure a) (hgo : ∀ t, t.kind ≠ .eof → (g t).Exhausts) :
  (peek >>= g).Exhausts
  := exhausts_look hend hgo

end Production

namespace Grammar

open Production

theorem theEnd_exhausts :
  theEnd.Exhausts
  := by
  change (nextIs .eof >>= fun a => if a then pure () else expected "end of input").Exhausts
  rw [nextIs_bind_ite]
  apply exhausts_look
  · intro t ht
    exact ⟨(), if_pos ht⟩
  · intro t ht
    rw [if_neg ht]
    apply exhausts_fail

variable (inner : Inner)

theorem soleStatement_exhausts :
  (soleStatement inner).Exhausts
  := by
  apply exhausts_bind
  intro s
  apply exhausts_bind
  intro _
  exact theEnd_exhausts.map fun _ => Node.statement s

theorem statements_exhausts (n : Nat) (found : List Node) :
  (statements inner n found).Exhausts
  := by
  induction n generalizing found with
  | zero => apply exhausts_fail
  | succ n ih =>
      apply exhausts_peek_bind
      · intro t ht
        simp only [ht]
        exact ⟨_, rfl⟩
      · intro t ht
        split
        · contradiction
        · exact exhausts_bind fun _ => ih found
        · apply exhausts_bind
          intro s
          apply exhausts_bind
          intro ends
          split
          · apply ih
          · exact theEnd_exhausts.map fun _ => (Node.statement s :: found).reverse

theorem soleExpression_exhausts :
  (soleExpression inner).Exhausts
  := by
  apply exhausts_bind
  intro e
  exact theEnd_exhausts.map fun _ => Node.expression e

end Grammar

/-! ### Entries -/

namespace Entry

open Grammar Production

variable {inner : Inner} {s s' : Tape} {nodes : List Node}

theorem production_exhausts (inner : Inner) (entry : Entry) :
  (entry.production inner).Exhausts
  := by
  cases entry with
  | statement => exact (soleStatement_exhausts inner).map _
  | script => exact statements_exhausts inner inner.bound []
  | expression => exact (soleExpression_exhausts inner).map _

/-- What is read is read from the tokens up to the end of the text. -/
theorem takes_of_reads {G : Rules} (hin : inner.Obeys G) (entry : Entry)
    (h : (entry.production inner).Reads s nodes s') :
  ∃ used t, s.Takes used s' ∧ s'.peek 0 = .ok t ∧ t.kind = .eof
  := by
  cases entry with
  | statement =>
      obtain ⟨node, hnode, -⟩ := reads_map.mp h
      obtain ⟨used, -, hused, -, -, t, ht, heof⟩ := soleStatement_obeys hin hnode
      exact ⟨used, t, hused, ht, heof⟩
  | script =>
      obtain ⟨used, -, hused, -, -, t, ht, heof⟩ := statements_obeys hin h
      exact ⟨used, t, hused, ht, heof⟩
  | expression =>
      obtain ⟨node, hnode, -⟩ := reads_map.mp h
      obtain ⟨used, -, hused, -, -, t, ht, heof⟩ := soleExpression_obeys hin hnode
      exact ⟨used, t, hused, ht, heof⟩

/-- Nothing is read from a tape on which an unrecognized token stands: what takes no such token never
comes to the end of the text. -/
theorem recognized_of_reads {limit : Nat} (hin : inner.Follows (.blocked id) limit inner)
    (hs : s.tokens.length < limit) (heof : ∀ t ∈ s.tokens, t.kind ≠ .eof) (entry : Entry)
    (h : (entry.production inner).Reads s nodes s') :
  ∀ t ∈ s.tokens, t.kind ≠ .unrecognized
  := by
  intro t ht hkind
  have hblocked : ∃ t ∈ s.tokens, t.kind = .unrecognized := ⟨t, ht, hkind⟩
  cases entry with
  | statement =>
      obtain ⟨node, hnode, -⟩ := reads_map.mp h
      exact not_reads_statements hin hs heof hblocked (statements_of_soleStatement (n := 0) hnode)
  | script => exact not_reads_statements hin hs heof hblocked h
  | expression =>
      obtain ⟨node, hnode, -⟩ := reads_map.mp h
      obtain ⟨⟨u, hu, -⟩, -⟩ := (soleExpression_follows hin).reads (fun _ => id) hs hblocked hnode
      simp only [soleExpression, reads_bind, reads_theEnd, reads_pure] at hnode
      obtain ⟨e, m, he, _, _, ⟨⟨v, hv, hend⟩, rfl⟩, rfl, rfl⟩ := hnode
      exact heof v (he.suffix.subset (mem_of_peek hv (List.ne_nil_of_mem hu))) hend

end Entry

/-! ### Texts -/

open Grammar

/-- **Texts are read as a whole.**  A text that is read as a statement, a script or an expression has
no fault itself, and none of its tokens is unrecognized.  Each back-quoted name in it ends at the
first back-quote that is not doubled.  All visible tokens have been taken when it has been read, and
the stream has come to the end of the text. -/
theorem parseAs_whole {entry : Entry} {text : String} {nodes : List Node}
    (h : parseAs entry text = .ok nodes) :
  ∃ ts, Token.list text = .ok ts ∧ (∀ t ∈ ts, t.kind ≠ .unrecognized) ∧
    (∀ t ∈ ts, t.kind = .quotedIdentifier → t.EndsUndoubled text) ∧
    (Tape.ofString text).Takes (ts.filter (·.isVisible))
      ((Stream.ofString text).readAs entry).2.tape ∧
    ((Stream.ofString text).readAs entry).2.Exhausted
  := by
  let s := Stream.ofString text
  have heof : ∀ t ∈ s.tape.tokens, t.kind ≠ .eof := Tape.kind_ne_eof_of_mem_ofString text
  have hrun : (entry.production (.outermost (s.size + 1))).run s = (.ok nodes, (s.readAs entry).2) := by
    rw [entry.production_run, ← h]
    rfl
  have hreads := Production.reads_of_run hrun
  obtain ⟨used, t, htakes, hpeek, hend⟩ :=
    entry.takes_of_reads (Inner.nested_obeys _ maxNesting) hreads
  obtain ⟨ts, hts, rfl⟩ := htakes.tokens_eq_visible hpeek hend
  have hrecognized := entry.recognized_of_reads (Inner.nested_natural (.refl _) maxNesting)
    s.length_tape_lt heof hreads
  have hvalid : ∀ t ∈ ts, t.kind ≠ .unrecognized := by
    intro t ht hkind
    apply hrecognized t _ hkind
    change t ∈ (Tape.ofString text).tokens
    rw [(Tape.ofString_of_list hts).2]
    exact List.mem_filter.mpr ⟨ht, by simp [Token.isVisible, hkind, Kind.isHidden]⟩
  refine ⟨ts, hts, hvalid, ?_, htakes, entry.production_exhausts _ s nodes _ heof hrun⟩
  have htext : text.toList = [] ++ (Cursor.ofString text).rest := rfl
  exact Cursor.endsUndoubled_of_tokens rfl htext hts hvalid

/-- A name with a doubled back-quote, read to the end of its text. -/
theorem parseAs_whole_doubled :
  ∃ nodes ts, parseAs .statement "TABLE \x60a\x60\x60b\x60 " = .ok nodes ∧
    Token.list "TABLE \x60a\x60\x60b\x60 " = .ok ts ∧ (∀ t ∈ ts, t.kind ≠ .unrecognized) ∧
    (∀ t ∈ ts, t.kind = .quotedIdentifier → t.EndsUndoubled "TABLE \x60a\x60\x60b\x60 ") ∧
    ((Stream.ofString "TABLE \x60a\x60\x60b\x60 ").readAs .statement).2.Exhausted
  := by
  have hok : (parseAs .statement "TABLE \x60a\x60\x60b\x60 ").isOk = true := by decide +kernel
  cases h : parseAs .statement "TABLE \x60a\x60\x60b\x60 " with
  | error e => simp [h, Except.isOk, Except.toBool] at hok
  | ok nodes =>
      obtain ⟨ts, hts, hvalid, hnames, -, hexhausted⟩ := parseAs_whole h
      exact ⟨nodes, ts, rfl, hts, hvalid, hnames, hexhausted⟩

end SqlFront
