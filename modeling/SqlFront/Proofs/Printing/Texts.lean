import SqlFront.Proofs.Grammar.Alone
import SqlFront.Proofs.Grammar.StatementFollows
import SqlFront.Proofs.Printing.Pieces
import SqlFront.Proofs.Printing.Reading

/-!
# Texts of words

What is read from a text of words with blanks between them.  A production that reads some words from
their tape reads them from the text, if it does not depend on positions (`Stream.read_words`); so a
statement that is read from the words of a text is read from the text (`ReadsAs.of_words`), and what
is read from the text is read from its words (`ReadsAs.exists_reads`).
-/

namespace SqlFront

open Grammar Production Token

/-- The tape of a text of words, with positions forgotten, is the tape of the words. -/
theorem Tape.forget_ofString {words : List String} (hwords : AreTokens words) :
  forget (Tape.ofString (" ".intercalate words)) = .ofWords words
  := by
  obtain ⟨htokens, hstop⟩ := Cursor.visible_spaced hwords .start
  change (⟨forget (Cursor.visible ⟨_, .start⟩).1, forget (Cursor.visible ⟨_, .start⟩).2,
    .point .start⟩ : Tape) = _
  rw [htokens, hstop]
  rfl

/-- The tape of a text that spells some words, with positions forgotten, is the tape of the words. -/
theorem Tape.forget_of_spells {text : String} {words : List String}
    (h : Cursor.Spells text.toList words []) :
  forget (ofString text) = .ofWords words
  := by
  obtain ⟨p, htokens, hstop⟩ := tokens_of_spells_nil h
  change (⟨forget (ofString text).tokens, forget (ofString text).stop, .point .start⟩ : Tape) = _
  rw [htokens, hstop]
  rfl

/-- A text has as many tokens as its words. -/
theorem Tape.length_of_forget {text : String} {words : List String}
    (h : forget (ofString text) = .ofWords words) :
  (ofString text).tokens.length = words.length
  := by
  have htokens : ((ofString text).tokens.map forget).length = (words.map ofWord).length :=
    congrArg (fun s : Tape => s.tokens.length) h
  rwa [List.length_map, List.length_map] at htokens

/-- A text of words has no fault. -/
theorem Tape.stop_of_forget {s : Tape} {words : List String} (h : forget s = .ofWords words) :
  ∃ p, s.stop = .ok p
  := by
  have hstop : forget s.stop = .ok .start := congrArg Tape.stop h
  cases hs : s.stop with
  | ok p => exact ⟨p, rfl⟩
  | error e =>
      rw [hs] at hstop
      contradiction

theorem reads_theEnd_words :
  theEnd.Reads (.ofWords []) () (.ofWords [])
  := by
  have hend : (nextIs .eof).Reads (.ofWords []) true (.ofWords []) := reads_nextIs_words rfl
  apply hend.bind_true
  apply reads_done_self

/-- At the end of the words there is no token of any kind. -/
theorem leading_nil_ne {k : Kind} (hk : k ≠ .eof) :
  leading [] ≠ k
  := hk.symm

/-- A statement that words are read as to their end is all that they consist of. -/
theorem reads_soleStatement_words {inner : Inner} {words : List String} {s : Statement}
    (h : (statement inner).Reads (.ofWords words) s (.ofWords [])) :
  (soleStatement inner).Reads (.ofWords words) (.statement s) (.ofWords [])
  := by
  apply h.bind
  apply (reads_accept_not (by decide) (leading_nil_ne (by decide))).bind
  apply reads_theEnd_words.bind
  apply reads_done_self

/-- What is read from the tape of a text with positions forgotten is read from the text, up to
positions. -/
theorem Stream.read_forgotten {α : Type} [Movable α] {text : String} {good : α → Prop}
    {p : Nat → Production α}
    (hnatural : ∀ bound, (p bound).Natural (.moved (fun _ => .start) fun _ => False) bound)
    (hread : ∀ bound, (Tape.ofString text).tokens.length < bound →
      ∃ a s', good a ∧ (p bound).Reads (forget (Tape.ofString text)) a s') :
  let s := Stream.ofString text
  ∃ a, ((p (s.size + 1)).run s).1 = .ok a ∧ good (forget a)
  := by
  intro s
  have heval : ((p (s.size + 1)).run s).1 = ((p (s.size + 1)).eval s.tape).1 := by
    rw [← run_eq_eval]
  obtain ⟨a, s', hgood, ha⟩ := hread _ s.length_tape_lt
  rcases (hnatural (s.size + 1)).eval_move s.length_tape_lt with heq | ⟨_, _, _, hfalse⟩
  · change (p (s.size + 1)).eval (forget s.tape) = _ at heq
    rw [show (p (s.size + 1)).eval (forget s.tape) = (.ok a, s') from ha, Prod.mk.injEq,
      ← heval] at heq
    rcases hs : ((p (s.size + 1)).run s).1 with fault | a'
    · rw [hs] at heq
      have h : (Except.ok a : Except Fault α) = .error (forget fault) := heq.1
      contradiction
    · use a', rfl
      rw [hs] at heq
      have h : (Except.ok a : Except Fault α) = .ok (forget a') := heq.1
      rw [← Except.ok.inj h]
      apply hgood
  · contradiction

/-- What is read from words is read from their text, up to positions. -/
theorem Stream.read_words {α : Type} [Movable α] {words : List String} {good : α → Prop}
    {p : Nat → Production α} (hwords : AreTokens words)
    (hnatural : ∀ bound, (p bound).Natural (.moved (fun _ => .start) fun _ => False) bound)
    (hread : ∀ bound, words.length < bound →
      ∃ a s', good a ∧ (p bound).Reads (.ofWords words) a s') :
  let s := Stream.ofString (" ".intercalate words)
  ∃ a, ((p (s.size + 1)).run s).1 = .ok a ∧ good (forget a)
  := by
  have htape := Tape.forget_ofString hwords
  apply read_forgotten hnatural
  intro bound hbound
  rw [Tape.length_of_forget htape] at hbound
  rw [htape]
  exact hread bound hbound

/-- A text is read as a statement, up to positions. -/
def ReadsAs (text : String) (s : Statement) : Prop :=
  ∃ s', parseStatement text = .ok (.statement s') ∧ forget s' = s

/-- A text is read as the statement that its words are read as. -/
theorem ReadsAs.of_words {text : String} {words : List String} {s : Statement}
    (htape : forget (Tape.ofString text) = .ofWords words)
    (hread : ∀ bound, words.length < bound →
      (soleStatement (.outermost bound)).Reads (.ofWords words) (.statement s) (.ofWords [])) :
  ReadsAs text s
  := by
  have hwords : ∀ bound, (Tape.ofString text).tokens.length < bound →
      ∃ node s', node = .statement s ∧
        (soleStatement (.outermost bound)).Reads (forget (Tape.ofString text)) node s' := by
    intro bound hbound
    rw [Tape.length_of_forget htape] at hbound
    rw [htape]
    exact ⟨_, _, rfl, hread bound hbound⟩
  obtain ⟨node, hnode, hforget⟩ := Stream.read_forgotten
    (fun _ => soleStatement_follows (Inner.nested_natural (.refl _) maxNesting) trivial) hwords
  cases node with
  | statement s' => exact ⟨s', hnode, Node.statement.inj hforget⟩
  | expression e => contradiction

/-- What a text is read as is read from its words. -/
theorem ReadsAs.exists_reads {text : String} {words : List String} {a : Statement}
    (h : ReadsAs text a) (htape : forget (Tape.ofString text) = .ofWords words) :
  ∃ bound m, words.length < bound ∧ (statement (.outermost bound)).Reads (.ofWords words) a m
  := by
  obtain ⟨b, hb, rfl⟩ := h
  let bound := (Stream.ofString text).size + 1
  have heval : parseStatement text = ((soleStatement (.outermost bound)).eval (.ofString text)).1 :=
    congrArg Prod.fst (Production.run_eq_eval _ (Stream.ofString text))
  obtain ⟨r, hr⟩ : ∃ r, (soleStatement (.outermost bound)).Reads (.ofString text) (.statement b) r :=
    ⟨_, Prod.ext (heval.symm.trans hb) rfl⟩
  obtain ⟨b', m, hb', hstatement, -⟩ := reads_soleStatement hr
  obtain rfl : b = b' := Node.statement.inj hb'
  have hlimit : (Tape.ofString text).tokens.length < bound := (Stream.ofString text).length_tape_lt
  have hnatural : (Inner.outermost bound).Follows (.moved (fun _ => .start) fun _ => False) bound
      (.outermost bound) := Inner.nested_natural (.refl _) maxNesting
  obtain ⟨-, hreads⟩ := (statement_follows hnatural).reads (fun _ => id) hlimit trivial hstatement
  change (statement (.outermost bound)).Reads (forget (Tape.ofString text)) (forget b) (forget m)
    at hreads
  rw [htape] at hreads
  rw [Tape.length_of_forget htape] at hlimit
  exact ⟨bound, _, hlimit, hreads⟩

end SqlFront
