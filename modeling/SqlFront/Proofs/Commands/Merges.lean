import SqlFront.Proofs.Commands.First
import SqlFront.Proofs.Commands.Loads
import SqlFront.Proofs.Grammar.Ensures
import SqlFront.Proofs.Grammar.Regions

/-!
# Merges

The grammar lets a clause of a merge only do what suits the rows that it concerns.  What is left to
a command is the order of the clauses and the number of values of an insertion: a merge is refused
at its first clause that hides a later one and, if there is none, at its first insertion of another
number of values than columns (`Merge.Refused`).  So every command of a merge is well formed, and
no well-formed merge is refused (`parseCommand_merge`).
-/

namespace SqlFront

open Grammar Production

/-! ### Well-formed commands -/

/-- What a rule does suits the rows that it concerns, and an insertion that names columns supplies
as many values. -/
inductive RowAction.Suits : MergeRows → RowAction → Prop where
  | insertAll : Suits .notMatched .insertAll
  | insert {columns : List String} {values : List Expression} (nonempty : values ≠ [])
      (supplied : columns = [] ∨ columns.length = values.length) :
      Suits .notMatched (.insert columns values)
  | updateAll : Suits .matched .updateAll
  | update {rows : MergeRows} {columns : List ColumnUpdate} (ofTarget : rows ≠ .notMatched)
      (nonempty : columns ≠ []) : Suits rows (.update columns)
  | delete {rows : MergeRows} (ofTarget : rows ≠ .notMatched) : Suits rows .delete

/-- A command of a merge is well formed: it has rules, each does what suits its rows, and no rule
without a condition stands before another one for the same rows. -/
structure MergeCommand.WellFormed (command : MergeCommand) : Prop where
  nonempty : command.rules ≠ []
  suits : ∀ rule ∈ command.rules, rule.action.Suits rule.rows
  conditioned : command.rules.Pairwise fun rule later =>
    later.rows = rule.rows → rule.condition.isSome

/-! ### Rules of clauses -/

/-- What a clause does, freed from the regions of its columns. -/
def Action.rowAction : Action → RowAction
  | updateAll => .updateAll
  | update assignments =>
    .update (assignments.map fun a => ⟨a.target.parts.map (·.value), a.value⟩)
  | delete => .delete
  | insertAll => .insertAll
  | insert columns values => .insert (columns.map (·.value)) values

/-- The rule that a clause states where the number of its values is right. -/
def Clause.rule (c : Clause) : RowRule := ⟨c.rows, c.condition, c.action.rowAction⟩

/-- An insertion names columns and supplies another number of values. -/
inductive Action.Miscounts : Nat → Nat → Action → Prop where
  | insert {columns : List Ident} {values : List Expression} (named : columns ≠ [])
      (differs : columns.length ≠ values.length) :
      Miscounts columns.length values.length (.insert columns values)

theorem RowRule.ofClause_eq_ok {c : Clause} {r : RowRule} :
  ofClause c = .ok r ↔ (∀ n k, ¬ c.action.Miscounts n k) ∧ c.rule = r
  := by
  obtain ⟨rows, condition, action, span⟩ := c
  cases action with
  | insert columns values =>
      simp only [ofClause, Clause.rule, Action.rowAction]
      split
      · next h =>
          simp only [reduceCtorEq, false_iff, not_and]
          intro hall
          exact (hall _ _ (.insert h.1 h.2)).elim
      · next h =>
          simp only [Except.ok.injEq]
          constructor
          · rintro rfl
            refine ⟨?_, rfl⟩
            rintro n k ⟨named, differs⟩
            exact h ⟨named, differs⟩
          · rintro ⟨-, rfl⟩
            rfl
  | updateAll | update | delete | insertAll =>
      simp only [ofClause, Clause.rule, Action.rowAction, Except.ok.injEq]
      constructor
      · rintro rfl
        refine ⟨?_, rfl⟩
        rintro n k ⟨⟩
      · rintro ⟨-, rfl⟩
        rfl

theorem RowRule.ofClause_eq_error {c : Clause} {e : Fault} :
  ofClause c = .error e ↔ ∃ n k, c.action.Miscounts n k ∧ e = ⟨.insertArity n k, c.span⟩
  := by
  obtain ⟨rows, condition, action, span⟩ := c
  cases action with
  | insert columns values =>
      simp only [ofClause]
      split
      · next h =>
          simp only [Except.error.injEq]
          constructor
          · rintro rfl
            exact ⟨_, _, .insert h.1 h.2, rfl⟩
          · rintro ⟨n, k, ⟨-, -⟩, rfl⟩
            rfl
      · next h =>
          simp only [reduceCtorEq, false_iff, not_exists, not_and]
          rintro n k ⟨named, differs⟩
          exact (h ⟨named, differs⟩).elim
  | updateAll | update | delete | insertAll =>
      simp only [ofClause, reduceCtorEq, false_iff, not_exists, not_and]
      rintro n k ⟨⟩

/-- What a clause does suits its rows, and so does its rule if the number of its values is right. -/
theorem Action.Suits.rowAction {rows : MergeRows} {action : Action} (h : action.Suits rows)
    (hcount : ∀ n k, ¬ action.Miscounts n k) :
  action.rowAction.Suits rows
  := by
  cases h with
  | insertAll => exact .insertAll
  | @insert columns values nonempty =>
      refine .insert nonempty ?_
      by_contra hneither
      simp only [List.map_eq_nil_iff, List.length_map, not_or] at hneither
      exact hcount _ _ (.insert hneither.1 hneither.2)
  | updateAll => exact .updateAll
  | update ofTarget nonempty => exact .update ofTarget (by simpa using nonempty)
  | delete ofTarget => exact .delete ofTarget

/-! ### Refusals -/

/-- The clause at the place `i` has no condition and hides a later clause for the same rows. -/
def Clause.HidesAt (cs : List Clause) (i : Nat) (e : Fault) : Prop :=
  ∃ c, cs[i]? = some c ∧ c.condition = none ∧ (∃ later ∈ cs.drop (i + 1), later.rows = c.rows) ∧
    e = ⟨.hidingClause c.rows, c.span⟩

/-- The clause at the place `i` is an insertion that names columns and supplies another number of
values. -/
def Clause.MiscountsAt (cs : List Clause) (i : Nat) (e : Fault) : Prop :=
  ∃ c, cs[i]? = some c ∧ ∃ n k, c.action.Miscounts n k ∧ e = ⟨.insertArity n k, c.span⟩

/-- Why a merge is refused: a first clause hides a later one or, if none does, a first insertion
supplies another number of values than it names columns. -/
def Merge.Refused (m : Merge) (e : Fault) : Prop :=
  (∃ i, FirstAt (Clause.HidesAt m.clauses) i e) ∨
    (∀ i f, ¬ Clause.HidesAt m.clauses i f) ∧ ∃ i, FirstAt (Clause.MiscountsAt m.clauses) i e

theorem hidingClause?_eq_some {cs : List Clause} {e : Fault} :
  hidingClause? cs = some e ↔ ∃ i, FirstAt (Clause.HidesAt cs) i e
  := by
  induction cs with
  | nil => simp [hidingClause?, FirstAt, Clause.HidesAt]
  | cons c later ih =>
      have hzero : ∀ f, Clause.HidesAt (c :: later) 0 f ↔
          (c.condition.isNone ∧ later.any (·.rows = c.rows)) ∧
            f = ⟨.hidingClause c.rows, c.span⟩ := by
        intro f
        simp [Clause.HidesAt, and_assoc]
      have hsucc : (fun j => Clause.HidesAt (c :: later) (j + 1)) = Clause.HidesAt later := rfl
      rw [hidingClause?, exists_firstAt_iff, hsucc, ← ih]
      simp only [hzero]
      split
      · next h =>
          simp only [h, true_and, forall_eq, Option.some.injEq, eq_comm (a := e)]
          simp
      · next h => simp only [h, false_and, not_false_eq_true, implies_true, true_and, false_or]

theorem hidingClause?_eq_none {cs : List Clause} :
  hidingClause? cs = none ↔ ∀ i f, ¬ Clause.HidesAt cs i f
  := by
  constructor
  · intro h i f hf
    obtain ⟨j, g, hg⟩ := exists_firstAt hf
    rw [hidingClause?_eq_some.mpr ⟨j, hg⟩] at h
    contradiction
  · intro h
    cases hs : hidingClause? cs with
    | none => rfl
    | some e =>
        obtain ⟨i, hi⟩ := hidingClause?_eq_some.mp hs
        exact (h i e hi.1).elim

/-- Where no clause hides a later one, those without a condition are the last for their rows. -/
theorem pairwise_of_not_hidesAt {cs : List Clause} (h : ∀ i f, ¬ Clause.HidesAt cs i f) :
  cs.Pairwise fun c later => later.rows = c.rows → c.condition.isSome
  := by
  induction cs with
  | nil => exact .nil
  | cons c later ih =>
      constructor
      · intro d hd hrows
        by_contra hcondition
        exact h 0 _ ⟨c, rfl, by simpa using hcondition, ⟨d, hd, hrows⟩, rfl⟩
      · apply ih
        rintro i f ⟨d, hd⟩
        exact h (i + 1) f ⟨d, hd⟩

namespace MergeCommand

variable {m : Merge} {command : MergeCommand} {e : Fault}

theorem ofMerge_eq_error :
  ofMerge m = .error e ↔ m.Refused e
  := by
  unfold ofMerge Merge.Refused
  rw [← hidingClause?_eq_some, ← hidingClause?_eq_none]
  have hcounts : (∃ i, FirstAt (Clause.MiscountsAt m.clauses) i e) ↔
      m.clauses.mapM RowRule.ofClause = .error e := by
    rw [mapM_eq_error]
    simp only [RowRule.ofClause_eq_error]
    rfl
  rw [hcounts]
  split
  · next fault hfault => simp [hfault]
  · next hnone =>
      simp only [hnone, reduceCtorEq, false_or, true_and]
      cases m.clauses.mapM RowRule.ofClause <;> simp [pure, Except.pure, Bind.bind, Except.bind]

theorem rules_of_ofMerge (h : ofMerge m = .ok command) :
  (∀ i f, ¬ Clause.HidesAt m.clauses i f) ∧
    (∀ c ∈ m.clauses, ∀ n k, ¬ c.action.Miscounts n k) ∧ command.rules = m.clauses.map Clause.rule
  := by
  unfold ofMerge at h
  split at h
  · contradiction
  · next hnone =>
      refine ⟨hidingClause?_eq_none.mp hnone, ?_⟩
      obtain ⟨rules, hrules, h⟩ := bind_eq_ok_iff.mp h
      obtain rfl := Except.ok.inj h
      have hforall := mapM_eq_ok.mp hrules
      simp only [RowRule.ofClause_eq_ok, List.forall₂_and_left] at hforall
      refine ⟨hforall.1, ?_⟩
      have hmap := (List.forall₂_map_left_iff (R := Eq)).mpr hforall.2
      rw [List.forall₂_eq_eq_eq] at hmap
      exact hmap.symm

theorem wellFormed_of_ofMerge (hm : Statement.Ensured (.merge m)) (hne : m.clauses ≠ [])
    (h : ofMerge m = .ok command) :
  command.WellFormed
  := by
  obtain ⟨hhides, hcounts, hrules⟩ := rules_of_ofMerge h
  constructor
  · simpa [hrules] using hne
  · rw [hrules, List.forall_mem_map]
    intro c hc
    apply (hm.merge m rfl c hc).rowAction (hcounts c hc)
  · rw [hrules, List.pairwise_map]
    apply pairwise_of_not_hidesAt hhides

end MergeCommand

/-! ### Texts -/

variable {text : String} {m : Merge}

/-- The clauses of a merge stand in the text one behind the other, and there is one. -/
theorem Merge.clauses_ordered (h : parseStatement text = .ok (.statement (.merge m))) :
  m.clauses ≠ [] ∧ m.clauses.Pairwise fun c later =>
    c.span.stop.offset ≤ later.span.start.offset
  := by
  obtain ⟨ts, hts, hparts⟩ := (Yields.statement h).reading_of_within
  obtain ⟨used, hused, hreading⟩ := hparts (.merge m) (.refl _)
  constructor
  · obtain ⟨n, hrule⟩ := hreading
    cases hrule
    assumption
  · have hordered := (hreading.placed hused (Token.sorted_visible hts)).ordered
    have hsuffix : m.clauses.map Part.clause <:+ (Part.merge m).children :=
      (List.suffix_cons _ _).trans (List.suffix_append _ _)
    exact List.pairwise_map.mp (hordered.sublist hsuffix.sublist)

theorem parseCommand_of_merge (h : parseStatement text = .ok (.statement (.merge m))) :
  parseCommand text = (MergeCommand.ofMerge m).map .merge
  := parseCommand_of_statement h

/-- A command that is a merge is that of a merge. -/
theorem exists_merge_of_parseCommand {command : MergeCommand}
    (h : parseCommand text = .ok (.merge command)) :
  ∃ m, parseStatement text = .ok (.statement (.merge m)) ∧ MergeCommand.ofMerge m = .ok command
  := by
  obtain ⟨s, hs, hcommand⟩ := exists_statement_of_parseCommand h
  cases s with
  | merge m =>
      refine ⟨m, hs, ?_⟩
      cases hm : MergeCommand.ofMerge m <;> simp_all [Command.ofNode, Except.map]
  | load l => cases hl : LoadCommand.ofLoad l <;> simp_all [Command.ofNode, Except.map]
  | exportRows e => cases he : ExportCommand.ofExport e <;> simp_all [Command.ofNode, Except.map]
  | query | verbatim => simp [Command.ofNode] at hcommand

/-- **Merges are well formed.**  The rules of a command are those of the clauses of a merge, in the
order of the text.  There is one, each does what suits its rows, an insertion supplies as many
values as it names columns, and all rules for the same rows but the last have a condition.  And a
merge is refused because of its first clause that hides a later one or, if there is none, because of
its first insertion of another number of values, and for no other reason. -/
theorem parseCommand_merge (text : String) :
  (∀ command, parseCommand text = .ok (.merge command) → command.WellFormed ∧
    ∃ m, parseStatement text = .ok (.statement (.merge m)) ∧
      command.rules = m.clauses.map Clause.rule ∧
      m.clauses.Pairwise fun c later => c.span.stop.offset ≤ later.span.start.offset) ∧
  ∀ m, parseStatement text = .ok (.statement (.merge m)) →
    (∀ e, parseCommand text = .error e ↔ m.Refused e) ∧
    ((∃ e, parseCommand text = .error e) ↔
      (∃ i e, Clause.HidesAt m.clauses i e) ∨ ∃ i e, Clause.MiscountsAt m.clauses i e)
  := by
  constructor
  · intro command h
    obtain ⟨m, hm, hcommand⟩ := exists_merge_of_parseCommand h
    obtain ⟨hne, hordered⟩ := Merge.clauses_ordered hm
    obtain ⟨-, -, hrules⟩ := MergeCommand.rules_of_ofMerge hcommand
    refine ⟨MergeCommand.wellFormed_of_ofMerge (ensured_of_parseStatement hm) hne hcommand, ?_⟩
    exact ⟨m, hm, hrules, hordered⟩
  · intro m hm
    have hrefused : ∀ e, parseCommand text = .error e ↔ m.Refused e := by
      intro e
      rw [parseCommand_of_merge hm, ← MergeCommand.ofMerge_eq_error]
      cases MergeCommand.ofMerge m <;> simp [Except.map]
    refine ⟨hrefused, ?_⟩
    simp only [hrefused]
    constructor
    · rintro ⟨e, ⟨i, hfirst⟩ | ⟨-, i, hfirst⟩⟩
      · left
        exact ⟨i, e, hfirst.1⟩
      · right
        exact ⟨i, e, hfirst.1⟩
    · by_cases hhides : ∃ i e, Clause.HidesAt m.clauses i e
      · obtain ⟨i, e, hhides⟩ := hhides
        obtain ⟨j, f, hfirst⟩ := exists_firstAt hhides
        exact fun _ => ⟨f, .inl ⟨j, hfirst⟩⟩
      · rintro (h | ⟨i, e, hcounts⟩)
        · contradiction
        · obtain ⟨j, f, hfirst⟩ := exists_firstAt hcounts
          exact ⟨f, .inr ⟨fun i e h => hhides ⟨i, e, h⟩, j, hfirst⟩⟩

/-- Insertions are counted only where no clause hides a later one. -/
theorem parseCommand_merge_hiding :
  (∃ command, parseCommand "MERGE INTO t USING s ON a WHEN MATCHED THEN DELETE" =
    .ok (.merge command) ∧ command.WellFormed) ∧
  ∃ m, parseStatement ("MERGE INTO t USING s ON a WHEN NOT MATCHED THEN INSERT (x) VALUES (1, 2) " ++
      "WHEN NOT MATCHED THEN INSERT *") = .ok (.statement (.merge m)) ∧
    m.Refused ⟨.hidingClause .notMatched, ⟨⟨1, 26, 26⟩, ⟨1, 72, 72⟩⟩⟩
  := by
  constructor
  · have hname : (parseCommand "MERGE INTO t USING s ON a WHEN MATCHED THEN DELETE").map
        Command.name = .ok "MERGE" := by decide +kernel
    cases h : parseCommand "MERGE INTO t USING s ON a WHEN MATCHED THEN DELETE" with
    | error e => simp [h, Except.map] at hname
    | ok c =>
        cases c with
        | merge command => exact ⟨command, rfl, ((parseCommand_merge _).1 command h).1⟩
        | _ => simp [h, Except.map, Command.name] at hname
  · have hnode : (parseStatement
        ("MERGE INTO t USING s ON a WHEN NOT MATCHED THEN INSERT (x) VALUES (1, 2) " ++
          "WHEN NOT MATCHED THEN INSERT *")).map
        (fun node => (node.label, (Command.ofNode node).map Command.name)) =
        .ok ("merge", .error ⟨.hidingClause .notMatched, ⟨⟨1, 26, 26⟩, ⟨1, 72, 72⟩⟩⟩) := by
      decide +kernel
    cases h : parseStatement
        ("MERGE INTO t USING s ON a WHEN NOT MATCHED THEN INSERT (x) VALUES (1, 2) " ++
          "WHEN NOT MATCHED THEN INSERT *") with
    | error e =>
        rw [h] at hnode
        simp [Except.map] at hnode
    | ok node =>
        rw [h] at hnode
        obtain ⟨hlabel, hfault⟩ := Prod.mk.inj (Except.ok.inj hnode)
        rcases node with (m | _ | _ | _ | _) | _
        · refine ⟨m, rfl, (((parseCommand_merge _).2 m h).1 _).mp ?_⟩
          rw [parseCommand_of_statement h]
          cases hc : Command.ofNode (.statement (.merge m)) with
          | error e => simpa [hc, Except.map] using hfault
          | ok c => simp [hc, Except.map] at hfault
        all_goals simp [Node.label, Statement.label] at hlabel

end SqlFront
