import SqlFront.Proofs.Grammar.Faults
import SqlFront.Proofs.Sessions.Nonterminals

/-!
# Readings one after the other

Any number of things may be read in one session, with or without success.  Between two readings no
level is open and the flag is not set, so the next one is that of a session which begins where the
stream stands (`Session.restored`).  Every reading ends, and a script has no more statements than its
text has tokens (`Session.readings_end`).
-/

namespace SqlFront

/-! ### Entries in sessions -/

/-- The routine of an entry. -/
def Entry.routine (calls : Calls) : Entry → Routine (List Node)
  | .statement => ([·]) <$> Routine.soleStatement calls
  | .script => Routine.script calls
  | .expression => ([·]) <$> Routine.soleExpression calls

namespace Session

/-- Reads the tokens ahead with the routines of the outermost level. -/
def read (s : Session) (entry : Entry) : Option (Except Fault (List Node) × Session) :=
  entry.routine .outermost s

/-- The session behind readings one after the other, with or without success. -/
def after (s : Session) : List Entry → Option Session
  | [] => some s
  | entry :: entries =>
    match s.read entry with
    | none => none
    | some (_, s') => s'.after entries

end Session

/-- The stream behind readings one after the other, with or without success. -/
def Stream.after (s : Stream) (entries : List Entry) : Stream :=
  entries.foldl (fun s entry => (s.readAs entry).2) s

namespace Entry

open Grammar Production Routine

theorem routine_performs {calls : Calls} {depth limit : Nat} {inner : Inner} {words : Bool}
    (hin : calls.Perform depth limit inner) (entry : Entry) :
  (entry.routine calls).Performs depth words limit (entry.production inner)
  := by
  cases entry with
  | statement => apply (soleStatement_performs hin).map
  | script => apply script_performs hin
  | expression => apply (soleExpression_performs hin).map

theorem run_map_singleton (p : Production Node) (s : Stream) :
  (([·]) <$> p : Production (List Node)).run s = ((p.run s).1.map ([·]), (p.run s).2)
  := by
  change (p >>= fun a => pure [a]).run s = _
  rw [run_bind]
  rcases p.run s with ⟨e | a, s'⟩ <;> rfl

theorem production_run (entry : Entry) (s : Stream) :
  (entry.production (.outermost (s.size + 1))).run s = s.readAs entry
  := by
  cases entry with
  | statement => apply run_map_singleton
  | script => rfl
  | expression => apply run_map_singleton

end Entry

namespace Session

open Grammar

/-- A session that begins on a stream reads what is read from the stream, and begins on the stream that
is left. -/
theorem read_start (s : Stream) (entry : Entry) :
  (start s).read entry = some ((s.readAs entry).1, start (s.readAs entry).2)
  := by
  have hcalls := Calls.outermost_perform s.length_tape_lt 0
  have hperforms : (entry.routine .outermost).Performs 0 false (s.tape.tokens.length + 1)
      (entry.production (.outermost (s.size + 1))) := entry.routine_performs hcalls
  rw [read, start, hperforms s (Nat.lt_succ_self _), entry.production_run]
  rfl

/-- Sessions begin anew behind each reading. -/
theorem after_start (s : Stream) (entries : List Entry) :
  (start s).after entries = some (start (s.after entries))
  := by
  induction entries generalizing s with
  | nil => rfl
  | cons entry entries ih =>
      rw [after, read_start]
      apply ih

/-- A script has no more statements than tokens have been taken. -/
theorem length_le_of_reads {inner : Inner} {G : Rules} (hin : inner.Obeys G) (hG : G.Nonempty)
    {n : Nat} {nodes : List Node} {s s' : Tape} (h : (statements inner n []).Reads s nodes s') :
  nodes.length ≤ s.tokens.length
  := by
  obtain ⟨used, ns, hused, rfl, hrule, -⟩ := statements_obeys hin h
  have hlength := hrule.length_le hG
  rw [hused.tokens_eq, List.length_append]
  exact Nat.le_add_right_of_le hlength

theorem parseScript_length_le {text : String} {nodes : List Node}
    (h : parseScript text = .ok nodes) :
  nodes.length ≤ (Transcript.ofString text).visible.length
  := by
  have heval := parseAs_eq .script (Nat.lt_succ_self (Tape.ofString text).tokens.length)
  rw [parseAs_script, h] at heval
  rw [← Transcript.tokens_ofString]
  apply length_le_of_reads (Inner.nested_obeys _ maxNesting) (Rules.within_nonempty _)
  exact Prod.ext heval.symm rfl

/-- Whatever is read for a nonterminal, and whether it is read or refused, as many levels are open
behind it as before it and the flag is the same.  So behind readings one after the other no level is
open and the flag is not set, and the next reading is that of a session that begins on the stream
which they have left. -/
theorem restored :
  (∀ {α : Type} (n : Nonterminal α) (calls : Calls) (s : Session), calls.Suffice s.depth →
    ∃ answer s', n.routine calls s = some (answer, s') ∧ s'.depth = s.depth ∧
      s'.words = s.words) ∧
  ∀ (text : String) (entries : List Entry),
    ∃ s, (start (.ofString text)).after entries = some s ∧ s.depth = 0 ∧ s.words = false ∧
      s.stream = (Stream.ofString text).after entries ∧
      ∀ entry, s.read entry = (start s.stream).read entry ∧
        ∃ s', s.read entry = some ((s.stream.readAs entry).1, s')
  := by
  constructor
  · intro α n calls s h
    obtain ⟨answer, s', hrun, hdepth, hwords, -⟩ := (n.routine_amounts h).run
    exact ⟨answer, s', hrun, hdepth, hwords⟩
  · intro text entries
    refine ⟨_, after_start _ entries, rfl, rfl, rfl, ?_⟩
    intro entry
    exact ⟨rfl, _, read_start _ entry⟩

theorem restored_within_clause :
  Calls.outermost.Suffice 31 ∧
    ∃ answer s', Nonterminal.clause.routine .outermost ⟨.ofString "WHEN MATCHED AND (", 31, true⟩ =
      some (answer, s') ∧ s'.depth = 31 ∧ s'.words = true
  := by
  have hsuffice := Calls.outermost_suffice 31
  exact ⟨hsuffice, restored.1 .clause .outermost ⟨_, 31, true⟩ hsuffice⟩

/-- Every reading ends, whatever the text.  What is read for a nonterminal takes a token, unless it is
left out and takes none, and no token is put back.  No round of a loop goes on without having taken a
token, which would leave the loop stuck.  So what is read without bounds is what is read with any bound
above the number of tokens, and a script has no more statements than tokens. -/
theorem readings_end :
  (∀ {α : Type} (n : Nonterminal α) (calls : Calls) (s : Session), calls.Suffice s.depth →
    ∃ answer s', n.routine calls s = some (answer, s') ∧
      s'.stream.tape.tokens <:+ s.stream.tape.tokens ∧
      ∀ a, answer = .ok a →
        (¬ n.Vacant a ∧ s'.left < s.left) ∨
        (n.Vacant a ∧ s'.stream.tape.tokens = s.stream.tape.tokens)) ∧
  (∀ {σ β : Type} (l : Loop σ β) (a : σ) (calls : Calls) (s : Session), calls.Suffice s.depth →
    ∃ answer s', l.round calls a s = some (answer, s') ∧
      ∀ a', answer = .ok (.inl a') → s'.left < s.left) ∧
  (∀ (entry : Entry) (text : String),
    (∃ s', (start (.ofString text)).read entry = some (parseAs entry text, s')) ∧
    ∀ bound, (Transcript.ofString text).visible.length < bound →
      ((entry.production (.outermost bound)).eval (.ofString text)).1 = parseAs entry text) ∧
  ∀ (text : String) (nodes : List Node), parseScript text = .ok nodes →
    nodes.length ≤ (Transcript.ofString text).visible.length
  := by
  refine ⟨?_, ?_, ?_, ?_⟩
  · intro α n calls s h
    obtain ⟨answer, s', hrun, -, -, hsuffix, htakes⟩ := (n.routine_amounts h).run
    refine ⟨answer, s', hrun, hsuffix, ?_⟩
    intro a ha
    rcases Nat.lt_or_ge s'.left s.left with hlt | hle
    · exact .inl ⟨fun hvacant => Nat.not_le.mpr hlt ((htakes a ha).mp hvacant), hlt⟩
    · exact .inr ⟨(htakes a ha).mpr hle, hsuffix.eq_of_length_le hle⟩
  · intro σ β l a calls s h
    apply l.round_run h
  · intro entry text
    refine ⟨⟨_, read_start _ entry⟩, ?_⟩
    intro bound hbound
    rw [← Transcript.tokens_ofString] at hbound
    exact (parseAs_eq entry hbound).symm
  · intro text nodes h
    apply parseScript_length_le h

theorem readings_end_tables :
  Calls.outermost.Suffice 0 ∧
    (∃ answer s', Nonterminal.join?.routine .outermost (start (.ofString "JOIN")) =
      some (answer, s') ∧ s'.stream.tape.tokens <:+ (Tape.ofString "JOIN").tokens) ∧
    ∃ nodes, parseScript "TABLE a;\n TABLE b" = .ok nodes ∧ nodes.length = 2 ∧
      nodes.length ≤ (Transcript.ofString "TABLE a;\n TABLE b").visible.length
  := by
  have hsuffice := Calls.outermost_suffice 0
  obtain ⟨answer, s', hrun, hsuffix, -⟩ := readings_end.1 .join? .outermost
    (start (.ofString "JOIN")) hsuffice
  refine ⟨hsuffice, ⟨answer, s', hrun, hsuffix⟩, ?_⟩
  have hlength : (parseScript "TABLE a;\n TABLE b").map List.length = .ok 2 := by decide +kernel
  cases h : parseScript "TABLE a;\n TABLE b" with
  | error e => simp [h, Except.map] at hlength
  | ok nodes =>
      rw [h] at hlength
      exact ⟨nodes, rfl, Except.ok.inj hlength, readings_end.2.2.2 _ nodes h⟩

end Session

end SqlFront
