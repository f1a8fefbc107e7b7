import SqlFront.Proofs.Commands.LoadTexts
import SqlFront.Proofs.Grammar.Layout
import SqlFront.Proofs.Tokens.Alone

/-!
# Names of tables

The name of a table that was read from a command can be read back from the text that displays it,
with one exception: an unquoted part behind a dot that begins with digits can become the places of a
number, as `1-x` does in `a.1-x`.  It was read where blanks stood around the dot.
`Table.reread_iff` says that the name can be read back exactly where no part is cut in this way.
-/

namespace SqlFront

open Grammar Token

/-! ### The tables of a command -/

/-- The tables that rows are taken from. -/
def RowSource.tables : RowSource → List Table
  | table t => [t]
  | query _ => []

/-- The tables that a merge or a load names. -/
def Command.tables : Command → List Table
  | merge command => command.target :: command.source.tables
  | load command => [command.table]
  | _ => []

/-- Whether a part of a name behind a dot is cut: it is not quoted and begins with the places of a
number. -/
def NamePart.IsCut (part : NamePart) : Prop :=
  part.quoted = false ∧ Match.Fractional part.name.toList

instance (part : NamePart) : Decidable part.IsCut := inferInstanceAs (Decidable (_ ∧ _))

/-- The name of a table is displayed as it is written. -/
theorem Table.qualifiedName_ofName (name : QualifiedName) :
  (ofName name).qualifiedName = name.written
  := by
  rw [qualifiedName, QualifiedName.written, ofName, List.map_map]
  rfl

/-- The parts of a name that are cut are those of the table. -/
theorem Table.forall_tail_ofName (name : QualifiedName) :
  (∀ part ∈ (ofName name).parts.tail, ¬ part.IsCut) ↔ ∀ i ∈ name.parts.tail, ¬ i.IsCut
  := by
  rw [ofName, ← List.map_tail, List.forall_mem_map]
  rfl

/-! ### Where the names of tables come from -/

section

variable {used : List Token} {name : QualifiedName} {c : Command} {t : Table}

/-- A name that is read from the tokens of a text can be written. -/
theorem isWritable_of_nameRule (h : NameRule name used)
    (hused : ∀ t ∈ used, t.kind.isName → t.kind ≠ .quotedIdentifier →
      kindOf? t.text = some t.kind) :
  name.isWritable
  := by
  obtain ⟨hdotted⟩ := h
  have hident : ∀ {i : Ident} {u : List Token}, IdentRule i u → u ⊆ used → i.isWritable := by
    rintro _ _ ⟨hname⟩ hu
    next t =>
    by_cases hquoted : t.kind = .quotedIdentifier
    · simp [Ident.isWritable, hquoted]
    · have hkind := hused t (hu (by simp)) hname hquoted
      simp [Ident.isWritable, hkind, hname, hquoted]
  clear hused
  induction hdotted with
  | one only => simp [QualifiedName.isWritable, hident only (fun _ h => h)]
  | @more i is dot u v first _ _ ih =>
      have hfirst := hident first (List.subset_append_left u (dot :: v))
      have hothers := ih fun hi hu => hident hi
        (List.Subset.trans hu (List.subset_append_of_subset_right u (List.subset_cons_self dot v)))
      simp only [QualifiedName.isWritable, Bool.and_eq_true] at hothers
      simp [QualifiedName.isWritable, hfirst, hothers.2]

theorem MergeCommand.tables_ofMerge {m : Merge} {command : MergeCommand}
    (h : MergeCommand.ofMerge m = .ok command) :
  command.target = .ofName m.target ∧ command.source = .ofSource m.source
  := by
  unfold ofMerge at h
  split at h
  · contradiction
  · obtain ⟨rules, -, h⟩ := bind_eq_ok_iff.mp h
    obtain rfl := Except.ok.inj h
    exact ⟨rfl, rfl⟩

theorem LoadCommand.table_ofLoad {l : Load} {command : LoadCommand}
    (h : LoadCommand.ofLoad l = .ok command) :
  command.table = .ofName l.table
  := by
  obtain ⟨path, -, h⟩ := bind_eq_ok_iff.mp h
  obtain ⟨partition, -, h⟩ := bind_eq_ok_iff.mp h
  obtain ⟨options, -, h⟩ := bind_eq_ok_iff.mp h
  obtain rfl := Except.ok.inj h
  rfl

/-- The tables of a command are named in its statement. -/
theorem Command.exists_nameRule {G : Rules} {a : Statement} (h : G.StatementRule a used)
    (hc : ofNode (.statement a) = .ok c) (ht : t ∈ c.tables) :
  ∃ name u, NameRule name u ∧ u ⊆ used ∧ t = .ofName name
  := by
  cases h with
  | @merge m _ isMerge =>
      obtain ⟨command, hcommand, rfl⟩ := map_eq_ok_iff.mp hc
      obtain ⟨htarget, hsource⟩ := MergeCommand.tables_ofMerge hcommand
      obtain ⟨opens, isTarget, isTargetLabel, isSource⟩ := isMerge
      rcases List.mem_cons.mp ht with rfl | ht
      · obtain ⟨-, isName⟩ := isTarget
        refine ⟨_, _, isName, ?_, htarget⟩
        intro v hv
        simp [hv]
      · obtain ⟨-, isSource⟩ := isSource
        rw [hsource] at ht
        cases isSource with
        | query => contradiction
        | table isName =>
            refine ⟨_, _, isName, ?_, List.mem_singleton.mp ht⟩
            intro v hv
            simp [hv]
  | @load l _ isLoad =>
      obtain ⟨command, hcommand, rfl⟩ := map_eq_ok_iff.mp hc
      obtain ⟨opens, words, isPath, moreWords, isTable⟩ := isLoad
      refine ⟨_, _, isTable, ?_, ?_⟩
      · intro v hv
        simp [hv]
      · rw [List.mem_singleton.mp ht]
        exact LoadCommand.table_ofLoad hcommand
  | exportRows =>
      obtain ⟨command, -, rfl⟩ := map_eq_ok_iff.mp hc
      contradiction
  | query | verbatim =>
      obtain rfl := Except.ok.inj hc
      contradiction

/-- The tables of a command have names that can be written. -/
theorem Command.exists_isWritable {text : String} (hc : parseCommand text = .ok c)
    (ht : t ∈ c.tables) :
  ∃ name : QualifiedName, name.isWritable ∧ t = .ofName name
  := by
  obtain ⟨node, hstatement, hc⟩ := bind_eq_ok_iff.mp hc
  obtain ⟨ts, a, hlist, rfl, hrule⟩ := rule_of_parseStatement hstatement
  obtain ⟨used, hstatement, hused⟩ : ∃ used, (Rules.within maxNesting).StatementRule a used ∧
      used ⊆ ts.filter (·.isVisible) := by
    generalize ts.filter (·.isVisible) = visible at hrule
    cases hrule with
    | bare only => exact ⟨_, only, fun _ h => h⟩
    | ended only => exact ⟨_, only, List.subset_append_left _ _⟩
  obtain ⟨name, u, hname, hu, rfl⟩ := exists_nameRule hstatement hc ht
  refine ⟨name, isWritable_of_nameRule hname ?_, rfl⟩
  intro v hv
  have hmem := hused (hu hv)
  rw [← (Tape.ofString_of_list hlist).2] at hmem
  exact Cursor.kindOf?_of_mem_visible (.ofString text) v hmem

end

/-- A table whose parts are among those that a text is found to name is one of its command. -/
theorem Command.exists_table {text : String} {found : List (List NamePart)} {parts : List NamePart}
    (h : (parseCommand text).map (fun c => c.tables.map (·.parts)) = .ok found)
    (hparts : parts ∈ found) :
  ∃ c, parseCommand text = .ok c ∧ ∃ t ∈ c.tables, t.parts = parts
  := by
  obtain ⟨c, hc, rfl⟩ := map_eq_ok_iff.mp h
  exact ⟨c, hc, List.mem_map.mp hparts⟩

/-- The name of a table of a command can be read back from the text that displays it exactly where
no part behind the first one is cut. -/
theorem Table.reread_iff {text path : String} {c : Command} (hc : parseCommand text = .ok c)
    {t : Table} (ht : t ∈ c.tables) (hpath : path ≠ "") :
  (∃ l : LoadCommand, parseCommand (loadText (Text.quote path) t.qualifiedName) = .ok (.load l) ∧
      l.table.parts = t.parts) ↔
    ∀ part ∈ t.parts.tail, ¬ part.IsCut
  := by
  obtain ⟨name, hname, rfl⟩ := Command.exists_isWritable hc ht
  rw [Table.qualifiedName_ofName, Table.forall_tail_ofName]
  have hstrings : ∀ w ∈ [Text.quote path], kindOf? w = some .string := by
    simpa using Text.kindOf?_quote path
  have hspells : ∀ more, Cursor.Spells ((Text.quote path).toList ++ more) [Text.quote path] more :=
    Cursor.spells_literal rfl path
  constructor
  · rintro ⟨l, hl, hparts⟩ i hi hcut
    obtain ⟨front, more, hfront, hlt, hwritten, form, n, hnumber⟩ :=
      spells_written_of_isCut hname hi hcut
    have hfrontParts :=
      parts_of_parseCommand_loadText hfront (by simp) hstrings hspells hwritten hnumber hl
    rw [hparts] at hfrontParts
    have hlength := congrArg List.length hfrontParts
    simp only [Table.ofName, List.length_map] at hlength
    omega
  · intro hcut
    obtain ⟨t, ht, hcommand⟩ := parseCommand_loadText hname (by simp) hstrings hspells
      (spells_written hname hcut) (by simpa [Text.unescape_quote, String.join] using hpath)
    exact ⟨_, hcommand, ht⟩

/-- A quoted part and digits with letters behind them can be read back. -/
theorem Table.reread_iff_quoted :
  ∃ c, parseCommand "MERGE INTO a.\x60b.c\x60.1x USING d ON TRUE WHEN MATCHED THEN DELETE" = .ok c ∧
    ∃ t ∈ c.tables, t.parts = [⟨"a", false⟩, ⟨"b.c", true⟩, ⟨"1x", false⟩] ∧ "p" ≠ "" ∧
      ∃ l : LoadCommand, parseCommand (loadText (Text.quote "p") t.qualifiedName) = .ok (.load l) ∧
        l.table.parts = t.parts
  := by
  have hfound : (parseCommand
        "MERGE INTO a.\x60b.c\x60.1x USING d ON TRUE WHEN MATCHED THEN DELETE").map
        (fun c => c.tables.map (·.parts)) =
      .ok [[⟨"a", false⟩, ⟨"b.c", true⟩, ⟨"1x", false⟩], [⟨"d", false⟩]] := by decide +kernel
  obtain ⟨c, hc, t, ht, hparts⟩ := Command.exists_table hfound (List.mem_cons_self)
  refine ⟨c, hc, t, ht, hparts, by decide, (reread_iff hc ht (by decide)).mpr ?_⟩
  rw [hparts]
  decide +kernel

/-- A part that is cut is read where blanks stand around the dot, and not where its table is
displayed. -/
theorem Table.not_reread_cut :
  ∃ c, parseCommand "LOAD DATA INPATH 'p' INTO TABLE a . 1-x" = .ok c ∧
    ∃ t ∈ c.tables, t.parts = [⟨"a", false⟩, ⟨"1-x", false⟩] ∧ t.qualifiedName = "a.1-x" ∧
      (parseCommand (loadText "'p'" t.qualifiedName)).isOk = false
  := by
  have hfound : (parseCommand "LOAD DATA INPATH 'p' INTO TABLE a . 1-x").map
        (fun c => c.tables.map (·.parts)) = .ok [[⟨"a", false⟩, ⟨"1-x", false⟩]] := by
    decide +kernel
  obtain ⟨c, hc, t, ht, hparts⟩ := Command.exists_table hfound List.mem_cons_self
  have hname : t.qualifiedName = "a.1-x" := by
    rw [qualifiedName, hparts]
    decide +kernel
  refine ⟨c, hc, t, ht, hparts, hname, ?_⟩
  rw [hname]
  decide +kernel

end SqlFront
