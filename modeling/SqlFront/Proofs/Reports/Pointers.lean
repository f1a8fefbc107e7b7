import SqlFront.Proofs.Commands.Parts
import SqlFront.Proofs.Grammar.Faults
import SqlFront.Proofs.Grammar.Regions
import SqlFront.Proofs.Reports.Lines
import SqlFront.Proofs.Tokens.Unclosed

/-!
# Where reports point

A fault comes from the tokens of a text, from reading it, or from making commands of what was read
(`Raised`).  All of them begin where something stands in the text (`Raised.isIn`): a token, an
unclosed string or comment, the end of the text, or a part of a tree.  So a report points to a
column of a line of the text (`Raised.reported`).
-/

namespace SqlFront

open Grammar

/-! ### Places in a text -/

/-- The place is that behind a beginning of the text. -/
def Position.IsIn (text : String) (p : Position) : Prop :=
  ∃ before after, text.toList = before ++ after ∧ p = .following before

variable {text : String} {e : Fault}

/-- Tokens begin in the text, and so does what stands behind them. -/
theorem Cursor.isIn_transcript {before : List Char} {c : Cursor}
    (hplace : c.position = .following before) (htext : text.toList = before ++ c.rest) :
  (∀ t ∈ c.transcript.tokens, t.span.start.IsIn text) ∧
    (∀ p, c.transcript.stop = .ok p → p.IsIn text) ∧
    ∀ e, c.transcript.stop = .error e → e.span.start.IsIn text
  := by
  have hhere : c.position.IsIn text := ⟨before, c.rest, htext, hplace⟩
  induction c using Cursor.transcript.induct generalizing before with
  | case1 c hrest =>
      rw [transcript_of_rest_eq_nil hrest]
      simpa using hhere
  | case2 c hrest e he =>
      obtain ⟨cause, -, rfl⟩ := next_eq_error_iff.mp he
      rw [transcript_of_fault hrest he]
      simpa using hhere
  | case3 c hrest t d hnext ih =>
      obtain ⟨piece, -, hcut, -, hplace', htext'⟩ := isCut_of_next hplace htext hrest hnext
      obtain ⟨htokens, hstop⟩ := ih hplace' htext' ⟨_, _, htext', hplace'⟩
      rw [transcript_of_next hrest hnext]
      refine ⟨?_, hstop⟩
      intro u hu
      rcases List.mem_cons.mp hu with rfl | hu
      · rw [hcut.start_eq, ← hplace]
        exact hhere
      · exact htokens u hu

theorem Transcript.isIn_ofString (text : String) :
  (∀ t ∈ (ofString text).tokens, t.span.start.IsIn text) ∧
    (∀ p, (ofString text).stop = .ok p → p.IsIn text) ∧
    ∀ e, (ofString text).stop = .error e → e.span.start.IsIn text
  := Cursor.isIn_transcript (c := .ofString text) (rfl : _ = Position.following []) rfl

theorem Transcript.isIn_get {i : Nat} {t : Token} (h : (ofString text).get i = .ok t) :
  t.span.start.IsIn text
  := by
  obtain ⟨htokens, hstop, -⟩ := isIn_ofString text
  rw [get] at h
  cases hi : (ofString text).visible[i]? with
  | some u =>
      simp only [hi, Except.ok.injEq] at h
      subst h
      exact htokens u (List.mem_of_mem_filter (List.mem_of_getElem? hi))
  | none =>
      rw [hi] at h
      obtain ⟨p, hend, rfl⟩ := map_eq_ok_iff.mp h
      exact hstop p hend

theorem Token.isIn_of_list {ts : List Token} (h : Token.list text = .ok ts) :
  ∀ t ∈ ts, t.span.start.IsIn text
  := by
  obtain ⟨htokens, hstop, -⟩ := Transcript.isIn_ofString text
  rw [list, Cursor.tokens_eq] at h
  change (Transcript.ofString text).stop.map _ = _ at h
  obtain ⟨p, hend, rfl⟩ := map_eq_ok_iff.mp h
  intro t ht
  rcases List.mem_append.mp ht with ht | ht
  · exact htokens t ht
  · obtain rfl := List.mem_singleton.mp ht
    exact hstop p hend

/-! ### Faults of tokens and readings -/

theorem Token.isIn_of_list_error (h : Token.list text = .error e) :
  e.span.start.IsIn text
  := by
  obtain ⟨-, -, hfault⟩ := Transcript.isIn_ofString text
  rw [list, Cursor.tokens_eq] at h
  exact hfault e (map_eq_error_iff.mp h)

/-- Wherever a token is taken from, its fault begins there. -/
theorem Cursor.isIn_of_next_error {n : Nat} (h : ((ofString text).skip n).next = .error e) :
  e.span.start.IsIn text
  := by
  obtain ⟨cause, -, rfl⟩ := next_eq_error_iff.mp h
  refine ⟨text.toList.take n, text.toList.drop n, (List.take_append_drop _ _).symm, ?_⟩
  apply Position.afterAll_start

theorem Stream.isIn_of_readAs_error {s s' : Stream} {entry : Entry} (hs : Reached text s)
    (h : s.readAs entry = (.error e, s')) :
  e.span.start.IsIn text
  := by
  rcases readAs_located hs h with ⟨-, hlist⟩ | ⟨-, taken, htaken, ⟨t, hget, -, hspan⟩ | hnumber⟩
  · exact Token.isIn_of_list_error hlist
  · rw [hspan]
    exact Transcript.isIn_get hget
  · obtain ⟨others, t, htaken', -, -, hspan⟩ := hnumber
    rw [hspan]
    apply (Transcript.isIn_ofString text).1
    have hvisible : t ∈ (Transcript.ofString text).visible := by
      rw [htaken, htaken']
      simp
    exact List.mem_of_mem_filter hvisible

/-! ### Faults of commands -/

/-- The key of an option begins where the option does. -/
theorem OptionEntryRule.keySpan_start {o : OptionEntry} {u : List Token} (h : OptionEntryRule o u) :
  o.keySpan.start = o.span.start
  := by
  cases h with
  | intro isKey words isValue =>
      obtain ⟨t, ts, rfl⟩ := List.exists_cons_of_ne_nil isKey.ne_nil
      rfl

/-- What is refused of a tree of the text begins in the text. -/
theorem Yields.isIn_of_isAbout {node : Node} (hnode : Yields text node) (h : e.IsAbout node.part) :
  e.span.start.IsIn text
  := by
  obtain ⟨ts, hts, hplaced⟩ := hnode.parts_placed
  have hstarts : ∀ p : Part, p.Within node.part → p.span.start.IsIn text := by
    intro p hp
    obtain ⟨t, ht, hstart⟩ := (hplaced p hp).starts
    rw [hstart]
    exact Token.isIn_of_list hts t (List.mem_of_mem_filter ht)
  cases h with
  | part isWithin span_eq =>
      rw [span_eq]
      exact hstarts _ isWithin
  | key isWithin span_eq =>
      obtain ⟨ts, -, hreadings⟩ := hnode.reading_of_within
      obtain ⟨u, -, hrule⟩ := hreadings _ isWithin
      rw [span_eq, OptionEntryRule.keySpan_start hrule]
      exact hstarts _ isWithin

/-! ### Reports -/

/-- The faults that a text gives rise to: where a token is taken from it, in the list of its tokens,
where it or what is left of it is read, and where commands are made of it. -/
inductive Raised (text : String) (e : Fault) : Prop where
  | token {n : Nat} (fails : ((Cursor.ofString text).skip n).next = .error e)
  | tokens (fails : Token.list text = .error e)
  | reading {s s' : Stream} {entry : Entry} (isReached : s.Reached text)
      (fails : s.readAs entry = (.error e, s'))
  | command (fails : parseCommand text = .error e)
  | commands (fails : parseCommands text = .error e)

/-- The report of a fault against a text points to the line `line` between the lines `above` and
`below`: the number of the line and the column lead to the offset of the fault, and the report shows
the lines of the text, without carriage returns at their ends, and directly below the line as many
dashes as there are characters before the fault, and a mark. -/
structure Fault.Reported (e : Fault) (text : String) (above : List (List Char)) (line : List Char)
    (below : List (List Char)) : Prop where
  isLines : IsLines text.toList (above ++ line :: below)
  line_eq : e.diagnostic.line = above.length + 1
  column_le : e.diagnostic.column ≤ line.length
  offset_eq : e.span.start.offset = byteLength (ended above ++ line.take e.diagnostic.column)
  render_eq : ∃ front kept back, List.Forall₂ WithoutReturns above front ∧
    WithoutReturns line kept ∧ List.Forall₂ WithoutReturns below back ∧
    e.diagnostic.render text =
      e.cause.message ++ "(" ++ e.span.start.describe ++ ")\n\n== SQL ==\n" ++
        String.ofList (ended (front ++ kept ::
          (List.replicate e.diagnostic.column '-' ++ ['^', '^', '^']) :: back))

/-- A tree of the text that is no command is refused where the text has something. -/
theorem Yields.isIn_of_ofNode {node : Node} (hnode : Yields text node)
    (h : Command.ofNode node = .error e) :
  e.span.start.IsIn text
  := hnode.isIn_of_isAbout (Command.isAbout_of_ofNode h)

theorem Raised.isIn (h : Raised text e) :
  e.span.start.IsIn text
  := by
  cases h with
  | token fails => exact Cursor.isIn_of_next_error fails
  | tokens fails => exact Token.isIn_of_list_error fails
  | reading isReached fails => exact Stream.isIn_of_readAs_error isReached fails
  | command fails =>
      cases hnode : parseStatement text with
      | ok node =>
          rw [parseCommand_of_statement hnode] at fails
          exact (Yields.statement hnode).isIn_of_ofNode fails
      | error e' =>
          rw [parseCommand, hnode] at fails
          obtain rfl : e' = e := Except.error.inj fails
          have hreads : (Stream.ofString text).readAs .statement =
              (.error e', (Stream.ofString text).statement.2) :=
            Prod.ext (congrArg (·.map ([·])) hnode) rfl
          exact Stream.isIn_of_readAs_error .start hreads
  | commands fails =>
      cases hnodes : parseScript text with
      | ok nodes =>
          rw [parseCommands, hnodes] at fails
          obtain ⟨i, ⟨node, hnode, hfails⟩, -⟩ := mapM_eq_error.mp fails
          exact (Yields.script hnodes (List.mem_of_getElem? hnode)).isIn_of_ofNode hfails
      | error e' =>
          rw [parseCommands, hnodes] at fails
          obtain rfl : e' = e := Except.error.inj fails
          have hreads : (Stream.ofString text).readAs .script =
              (.error e', (Stream.ofString text).script.2) := Prod.ext hnodes rfl
          exact Stream.isIn_of_readAs_error .start hreads

/-- A fault that begins in a text is reported on one of its lines. -/
theorem Position.IsIn.exists_reported (h : e.span.start.IsIn text) :
  ∃ above line below, e.Reported text above line below
  := by
  obtain ⟨before, after, htext, hstart⟩ := h
  obtain ⟨above, head, tail, below, hlines, rfl⟩ := IsLines.exists_around before after
  have habove : ∀ l ∈ above, '\n' ∉ l := fun l hl => hlines.unbroken l (by simp [hl])
  have hhead : '\n' ∉ head := by
    have hline := hlines.unbroken (head ++ tail) (by simp)
    simpa using fun hmem => hline (List.mem_append_left _ hmem)
  rw [Position.following_ended habove hhead] at hstart
  have hline : e.diagnostic.line = above.length + 1 := congrArg Position.line hstart
  have hcolumn : e.diagnostic.column = head.length := congrArg Position.column hstart
  have htrims : ∀ ls : List (List Char), List.Forall₂ WithoutReturns ls (ls.map trimReturns) := by
    intro ls
    apply List.forall₂_map_right_iff.mpr
    apply List.forall₂_same.mpr
    intro l _
    apply withoutReturns_trimReturns
  rw [← htext] at hlines
  refine ⟨above, head ++ tail, below, hlines, hline, by simp [hcolumn], ?_, ?_⟩
  · rw [hcolumn, List.take_left]
    exact congrArg Position.offset hstart
  · refine ⟨_, _, _, htrims above, withoutReturns_trimReturns _, htrims below, ?_⟩
    rw [Diagnostic.render, Diagnostic.annotated_eq hlines hline]
    simp [ended, Diagnostic.pointer, Fault.diagnostic]

/-- **Reports.**  Whatever a text is refused for is reported on a line of the text, and the report
shows the whole text with a pointer to the place of the fault. -/
theorem Raised.reported (h : Raised text e) :
  ∃ above line below, e.Reported text above line below
  := h.isIn.exists_reported

/-- An unclosed string on the second line is reported there. -/
theorem Raised.reported_string :
  Raised "é\r\n 'a" ⟨.openString, ⟨⟨2, 1, 5⟩, ⟨2, 2, 6⟩⟩⟩ ∧ ∃ above line below,
    Fault.Reported ⟨.openString, ⟨⟨2, 1, 5⟩, ⟨2, 2, 6⟩⟩⟩ "é\r\n 'a" above line below
  := by
  have hraised : Raised "é\r\n 'a" ⟨.openString, ⟨⟨2, 1, 5⟩, ⟨2, 2, 6⟩⟩⟩ :=
    .tokens (by decide +kernel)
  exact ⟨hraised, Raised.reported hraised⟩

/-- The carriage return is not shown, and one dash stands below the blank. -/
example : (Fault.mk .openString ⟨⟨2, 1, 5⟩, ⟨2, 2, 6⟩⟩).diagnostic.render "é\r\n 'a" =
    "unterminated string literal(line 2, pos 1)\n\n== SQL ==\né\n 'a\n-^^^\n"
  := by decide +kernel

end SqlFront
