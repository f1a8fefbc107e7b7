import SqlFront.Command.Dispatch
import SqlFront.Proofs.Grammar.StatementObeys
import SqlFront.Proofs.Printing.Pieces
import SqlFront.Proofs.Printing.Reading

/-!
# Loads without partition and options

`Grammar.PlainLoad` says which tokens a load consists of that gives a path and a table and nothing
else.  Such a load is read from its tokens wherever they stand (`Grammar.reads_plainLoad`): the path
is the values of its texts, joined, and the table has the parts of its name.  So a text that begins
with these tokens is the command for that path and that table, or none (`parseCommand_plainLoad`).
-/

namespace SqlFront

/-- The tree of a load that has a path and a table and nothing else. -/
def Load.plain (path : String) (parts : List Ident) (a b c : Span) : Load :=
  ⟨⟨.string path, a⟩, false, false, ⟨parts, b⟩, none, none, c⟩

namespace Grammar

open Production

variable {s s' : Tape} {n : Token} {texts : List Token} {parts : List Ident} {bound : Nat}

/-! ### Paths -/

/-- The text that adjacent string literals stand for. -/
def joined (texts : List Token) : String := String.join (texts.map fun t => Text.unescape t.text)

/-- Adjacent string literals are read to the last of them. -/
theorem reads_text_tokens (htexts : ∀ t ∈ texts, t.kind = .string) (hbound : texts.length < bound)
    (h : s.Takes texts s') (hnext : s'.peek 0 = .ok n) (hn : n.kind ≠ .string) :
  (text bound).Reads s (joined texts) s'
  := by
  have heach : ∀ s : Tape, s.Takes texts s' → ReadsEach (accept? .string) s texts s' := by
    clear h hbound
    induction texts with
    | nil =>
        intro s h
        obtain rfl := Tape.takes_nil.mp h
        exact .nil ((reads_accept? (by decide)).mpr (.inr ⟨rfl, rfl, n, hnext, hn⟩))
    | cons t ts ih =>
        rw [List.forall_mem_cons] at htexts
        intro s h
        obtain ⟨m, ht, hts⟩ := Tape.takes_cons.mp h
        refine .cons ?_ (ih htexts.2 m hts)
        exact (reads_accept? (by decide)).mpr (.inl ⟨t, rfl, htexts.1, ht⟩)
  apply (reads_collect.mpr ⟨texts, hbound, rfl, heach s h⟩).bind
  apply reads_done_self

/-- Adjacent string literals are a constant. -/
theorem reads_textConstant (hne : texts ≠ []) (htexts : ∀ t ∈ texts, t.kind = .string)
    (hbound : texts.length < bound) (h : s.Takes texts s') (hnext : s'.peek 0 = .ok n)
    (hn : n.kind ≠ .string) :
  ∃ a, (textConstant bound).Reads s ⟨.string (joined texts), a⟩ s'
  := by
  have hread := reads_text_tokens htexts hbound h hnext hn
  obtain ⟨t, ts, rfl⟩ := List.exists_cons_of_ne_nil hne
  have hkind := htexts t (by simp)
  have hpeek := h.peek_zero
  have hliteral : (literal bound).Reads s (.string (joined (t :: ts))) s' := by
    apply (reads_peek.mpr ⟨hpeek, rfl⟩).bind
    rw [hkind]
    apply hread.bind
    apply reads_done_self
  refine ⟨⟨t.span.start, s'.last.stop⟩, ?_⟩
  apply Reads.bind_true (reads_nextIs.mpr ⟨⟨t, hpeek, by simp [hkind]⟩, rfl⟩)
  apply (reads_here.mpr ⟨⟨t, hpeek, rfl⟩, rfl⟩).bind
  apply hliteral.bind
  apply (reads_spanFrom.mpr ⟨rfl, rfl⟩).bind
  apply reads_done_self

/-! ### Names -/

theorem Separated.length_le {u : List Token} (h : Separated .dot IdentRule parts u) :
  parts.length ≤ u.length
  := by
  induction h with
  | one only =>
      cases only
      apply Nat.le_refl
  | more first _ _ ih =>
      cases first
      simp only [List.length_cons, List.length_append]
      omega

/-- Names joined by dots are read one after the other, where no dot follows. -/
theorem exists_reads_dotted {u : List Token} (h : Separated .dot IdentRule parts u)
    (htakes : s.Takes u s') (hnext : s'.peek 0 = .ok n) (hn : n.kind ≠ .dot) :
  ∃ i is m, parts = i :: is ∧ ident.Reads s i m ∧ ReadsEach dottedIdent m is s'
  := by
  induction h generalizing s with
  | @one i u only =>
      obtain ⟨hname⟩ := only
      refine ⟨_, [], s', rfl, reads_ident.mpr ⟨_, hname, htakes, rfl⟩, .nil ?_⟩
      apply (reads_peek.mpr ⟨hnext, rfl⟩).bind
      rw [if_neg hn]
      apply reads_done_self
  | @more i is dot u v first separator others ih =>
      obtain ⟨hname⟩ := first
      obtain ⟨m, hi, hbehind⟩ := Tape.takes_append.mp htakes
      obtain ⟨r, hdot, hothers⟩ := Tape.takes_cons.mp hbehind
      obtain ⟨j, js, q, rfl, hj, hjs⟩ := ih hothers
      obtain ⟨u, hu, hutakes, -⟩ := reads_ident.mp hj
      refine ⟨_, j :: js, m, rfl, reads_ident.mpr ⟨_, hname, hi, rfl⟩, .cons ?_ hjs⟩
      have hsecond : m.peek Lookahead.second.distance = .ok u :=
        hdot.peek_one.trans hutakes.peek_zero
      apply (reads_peek.mpr ⟨hdot.peek_zero, rfl⟩).bind
      rw [if_pos separator]
      apply (reads_peekAt.mpr ⟨hsecond, rfl⟩).bind
      rw [if_pos hu]
      apply (reads_advance hdot).bind
      exact hj.map some

/-- Names joined by dots are read to the last of them, where no dot follows. -/
theorem reads_qualifiedName {u : List Token} (h : Separated .dot IdentRule parts u)
    (hbound : parts.length ≤ bound) (htakes : s.Takes u s') (hnext : s'.peek 0 = .ok n)
    (hn : n.kind ≠ .dot) :
  ∃ a, (qualifiedName bound).Reads s ⟨parts, a⟩ s'
  := by
  obtain ⟨i, is, m, rfl, hi, his⟩ := exists_reads_dotted h htakes hnext hn
  obtain ⟨t, -, ht, -⟩ := reads_ident.mp hi
  refine ⟨⟨t.span.start, s'.last.stop⟩, ?_⟩
  apply (reads_here.mpr ⟨⟨t, ht.peek_zero, rfl⟩, rfl⟩).bind
  apply hi.bind
  apply (reads_collect.mpr ⟨is, hbound, rfl, his⟩).bind
  apply (reads_spanFrom.mpr ⟨rfl, rfl⟩).bind
  apply reads_done_self

/-! ### Loads -/

/-- The tokens of a load from the path of `texts` into the table with the name `parts`. -/
inductive PlainLoad (texts : List Token) (parts : List Ident) : List Token → Prop where
  | intro {load data inpath into table : Token} {u : List Token}
      (isLoad : load.kind = .keyword .LOAD) (isData : data.kind = .keyword .DATA)
      (isInpath : inpath.kind = .keyword .INPATH) (nonempty : texts ≠ [])
      (areTexts : ∀ t ∈ texts, t.kind = .string) (isInto : into.kind = .keyword .INTO)
      (isTable : table.kind = .keyword .TABLE) (isName : Separated .dot IdentRule parts u) :
      PlainLoad texts parts (load :: data :: inpath :: (texts ++ into :: table :: u))

/-- Whether a token ends a load: it belongs neither to the name of the table nor to what may follow
it. -/
def EndsLoad (n : Token) : Prop :=
  n.kind ≠ .dot ∧ n.kind ≠ .keyword .PARTITION ∧ n.kind ≠ .keyword .OPTIONS

/-- What is behind a token of another kind is left out. -/
theorem reads_afterToken?_absent {α : Type} {k : Kind} {p : Production α} (hk : k ≠ .eof)
    (hnext : s.peek 0 = .ok n) (hn : n.kind ≠ k) :
  (afterToken? k p).Reads s none s
  := by
  apply ((reads_accept hk).mpr (.inr ⟨rfl, rfl, n, hnext, hn⟩)).bind_false
  apply reads_done_self

theorem reads_partition?_absent (hnext : s.peek 0 = .ok n) (hn : n.kind ≠ .keyword .PARTITION) :
  (partition? bound).Reads s none s
  := by
  apply (reads_here.mpr ⟨⟨n, hnext, rfl⟩, rfl⟩).bind
  exact reads_afterToken?_absent (by decide) hnext hn

theorem reads_accept_absent {k : Kind} (hk : k ≠ .eof) (hnext : s.peek 0 = .ok n)
    (hn : n.kind ≠ k) :
  (accept k).Reads s false s
  := (reads_accept hk).mpr (.inr ⟨rfl, rfl, n, hnext, hn⟩)

/-- A load without partition and options is read from its tokens. -/
theorem reads_plainLoad {used : List Token} (h : PlainLoad texts parts used)
    (hbound : used.length < bound) (htakes : s.Takes used s') (hnext : s'.peek 0 = .ok n)
    (hn : EndsLoad n) :
  ∃ a b c, (load bound).Reads s (.plain (joined texts) parts a b c) s'
  := by
  obtain ⟨hdot, hpartition, hoptions⟩ := hn
  cases h with
  | @intro load data inpath into table u isLoad isData isInpath nonempty areTexts isInto isTable
      isName =>
      have hparts := isName.length_le
      simp only [List.length_cons, List.length_append] at hbound
      obtain ⟨s₁, hload, htakes⟩ := Tape.takes_cons.mp htakes
      obtain ⟨s₂, hdata, htakes⟩ := Tape.takes_cons.mp htakes
      obtain ⟨s₃, hinpath, htakes⟩ := Tape.takes_cons.mp htakes
      obtain ⟨s₄, htexts, htakes⟩ := Tape.takes_append.mp htakes
      obtain ⟨s₅, hinto, htakes⟩ := Tape.takes_cons.mp htakes
      obtain ⟨s₆, htable, hname⟩ := Tape.takes_cons.mp htakes
      have htextsBound : texts.length < bound := by omega
      have hpartsBound : parts.length ≤ bound := by omega
      obtain ⟨a, ha⟩ := reads_textConstant nonempty areTexts htextsBound htexts hinto.peek_zero
        (by rw [isInto]; decide)
      obtain ⟨b, hb⟩ := reads_qualifiedName isName hpartsBound hname hnext hdot
      refine ⟨a, b, ⟨load.span.start, s'.last.stop⟩, ?_⟩
      apply (reads_here.mpr ⟨⟨load, hload.peek_zero, rfl⟩, rfl⟩).bind
      apply ((reads_expect (by decide)).mpr ⟨isLoad, hload⟩).bind
      apply ((reads_expect (by decide)).mpr ⟨isData, hdata⟩).bind
      apply (reads_accept_absent (by decide) hinpath.peek_zero (by rw [isInpath]; decide)).bind
      apply ((reads_expect (by decide)).mpr ⟨isInpath, hinpath⟩).bind
      apply ha.bind
      apply (reads_accept_absent (by decide) hinto.peek_zero (by rw [isInto]; decide)).bind
      apply ((reads_expect (by decide)).mpr ⟨isInto, hinto⟩).bind
      apply ((reads_expect (by decide)).mpr ⟨isTable, htable⟩).bind
      apply hb.bind
      apply (reads_partition?_absent hnext hpartition).bind
      apply (reads_afterToken?_absent (by decide) hnext hoptions).bind
      apply (reads_spanFrom.mpr ⟨rfl, rfl⟩).bind
      apply reads_done_self

/-- A load without partition and options is a statement, and the statement of a text that begins
with it is no other. -/
theorem reads_soleStatement_plainLoad {inner : Inner} {used : List Token}
    (h : PlainLoad texts parts used) (hbound : used.length < inner.bound) (htakes : s.Takes used s')
    (hnext : s'.peek 0 = .ok n) (hn : EndsLoad n) :
  ∃ a b c,
    (∀ node r, (soleStatement inner).Reads s node r →
      node = .statement (.load (.plain (joined texts) parts a b c))) ∧
    (n.kind = .eof →
      (soleStatement inner).Reads s (.statement (.load (.plain (joined texts) parts a b c))) s')
  := by
  obtain ⟨a, b, c, hload⟩ := reads_plainLoad h hbound htakes hnext hn
  have hread : (statement inner).Reads s (.load (.plain (joined texts) parts a b c)) s' := by
    cases h with
    | @intro load data inpath into table u isLoad =>
        apply (reads_peek.mpr ⟨htakes.peek_zero, rfl⟩).bind
        rw [isLoad]
        apply hload.bind
        apply reads_done_self
  refine ⟨a, b, c, ?_, ?_⟩
  · intro node r hnode
    obtain ⟨other, m, hother, hnode⟩ := reads_bind.mp hnode
    -- the statement that stands here is unique
    rw [Reads, hread, Prod.mk.injEq, Except.ok.injEq] at hother
    obtain ⟨rfl, rfl⟩ := hother
    obtain ⟨_, _, _, hnode⟩ := reads_bind.mp hnode
    obtain ⟨_, _, _, hnode⟩ := reads_bind.mp hnode
    exact (reads_pure.mp hnode).1
  · intro heof
    have hend : theEnd.Reads s' () s' := by
      apply Reads.bind_true (reads_nextIs.mpr ⟨⟨n, hnext, by simp [heof]⟩, rfl⟩)
      apply reads_done_self
    apply hread.bind
    apply (reads_accept_absent (by decide) hnext (by rw [heof]; decide)).bind
    apply hend.bind
    apply reads_done_self

end Grammar

/-! ### Commands -/

open Grammar

/-- The command that loads from a path into a table, all of it. -/
def LoadCommand.plain (path : String) (table : Table) : LoadCommand :=
  ⟨path, false, false, table, none, ⟨[]⟩⟩

theorem Command.ofNode_plain {path : String} {a b c : Span} {parts : List Ident} :
  ofNode (.statement (.load (.plain path parts a b c))) =
    if path = "" then .error ⟨.emptyPath, a⟩ else .ok (.load (.plain path (.ofName ⟨parts, b⟩)))
  := by
  by_cases hpath : path = ""
  · rw [if_pos hpath, hpath]
    rfl
  · simp only [ofNode, LoadCommand.ofLoad, Load.plain, pathOf, if_neg hpath]
    rfl

theorem parseCommand_of_statement {text : String} {node : Node}
    (h : parseStatement text = .ok node) :
  parseCommand text = Command.ofNode node
  := by
  rw [parseCommand, h]
  rfl

/-- A command is that of a statement. -/
theorem exists_statement_of_parseCommand {text : String} {c : Command}
    (h : parseCommand text = .ok c) :
  ∃ s, parseStatement text = .ok (.statement s) ∧ Command.ofNode (.statement s) = .ok c
  := by
  obtain ⟨node, hnode, hcommand⟩ := bind_eq_ok_iff.mp h
  cases node with
  | statement s => exact ⟨s, hnode, hcommand⟩
  | expression e => contradiction

/-- A text that begins with a load without partition and options is the command of this load, or
none; if nothing follows and the path is not empty, it is the command. -/
theorem parseCommand_plainLoad {text : String} {texts used more : List Token} {parts : List Ident}
    {n : Token} (htokens : (Tape.ofString text).tokens = used ++ more)
    (h : PlainLoad texts parts used)
    (hnext : (⟨more, (Tape.ofString text).stop, default⟩ : Tape).peek 0 = .ok n)
    (hn : EndsLoad n) :
  ∃ span, (∀ c, parseCommand text = .ok c →
      c = .load (.plain (joined texts) (.ofName ⟨parts, span⟩))) ∧
    (n.kind = .eof → joined texts ≠ "" →
      parseCommand text = .ok (.load (.plain (joined texts) (.ofName ⟨parts, span⟩))))
  := by
  let s := Stream.ofString text
  have hbound : used.length < s.size + 1 := by
    have hlength := s.length_tape_lt
    change (Tape.ofString text).tokens.length < _ at hlength
    rw [htokens, List.length_append] at hlength
    omega
  have htakes : s.tape.Takes used
      ⟨more, (Tape.ofString text).stop, Span.lastOf s.tape.last used⟩ := ⟨htokens, rfl, rfl⟩
  let inner := Inner.outermost (s.size + 1)
  have hinner : used.length < inner.bound := hbound
  obtain ⟨a, b, c, hunique, hexists⟩ := reads_soleStatement_plainLoad h hinner htakes hnext hn
  refine ⟨b, ?_, ?_⟩
  · intro command hcommand
    obtain ⟨node, hstatement, hcommand⟩ := bind_eq_ok_iff.mp hcommand
    obtain rfl := hunique node _ (Stream.reads_of_read hstatement)
    rw [Command.ofNode_plain] at hcommand
    split at hcommand
    · contradiction
    · exact (Except.ok.inj hcommand).symm
  · intro heof hpath
    have hrun := Production.run_eq_eval (soleStatement (.outermost (s.size + 1))) s
    rw [hexists heof] at hrun
    have hstatement : parseStatement text = .ok _ := congrArg Prod.fst hrun
    rw [parseCommand_of_statement hstatement, Command.ofNode_plain, if_neg hpath]

end SqlFront
