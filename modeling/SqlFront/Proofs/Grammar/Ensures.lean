import SqlFront.Proofs.Grammar.Alone
import SqlFront.Proofs.Reading.Ensures
import SqlFront.Proofs.Tokens.Numbers

/-!
# What the grammar ensures of statements

Some facts about statements are decided by the productions and not by the shape of the tree.  The
clauses of a merge only do what suits the rows that they concern (`clause_ensures`), the paths of
loads and exports are texts, and the numbers of their options and partitions are written as the
rules for their forms say (`load_ensures`, `exportRows_ensures`).
-/

namespace SqlFront

open Grammar Production Match

/-! ### What suits, and what is written -/

/-- What a clause does suits the rows that it concerns: rows of the source are inserted, rows of the
target updated or deleted, and all columns are taken over only where a row of the source matches. -/
inductive Action.Suits : MergeRows → Action → Prop where
  | insertAll : Suits .notMatched .insertAll
  | insert {columns : List Ident} {values : List Expression} (nonempty : values ≠ []) :
      Suits .notMatched (.insert columns values)
  | updateAll : Suits .matched .updateAll
  | update {rows : MergeRows} {assignments : List Assignment} (ofTarget : rows ≠ .notMatched)
      (nonempty : assignments ≠ []) : Suits rows (.update assignments)
  | delete {rows : MergeRows} (ofTarget : rows ≠ .notMatched) : Suits rows .delete

/-- A number is written as the rule for its form says. -/
def Token.IsWritten (t : Token) : Prop :=
  ∀ form, t.kind = .number form → ∃ after, NumberRule form t.text.toList after

/-- A number is written as the rule for its form says, with a minus sign before it or without. -/
inductive NumberForm.Writes (form : NumberForm) (text : String) : Prop where
  | plain {after : List Char} (isNumber : NumberRule form text.toList after)
  | negative {w after : List Char} (sign : text.toList = '-' :: w)
      (isNumber : NumberRule form w after)

/-- A literal that is a number is written as one. -/
def Literal.IsWritten : Literal → Prop
  | number form text => form.Writes text
  | _ => True

/-- What loads and exports have in common: a path, possibly a partition, and options. -/
structure Payload where
  path : Constant
  partition : Option Partition
  options : Option OptionList

/-- The payload of a load. -/
def Load.payload (l : Load) : Payload := ⟨l.path, l.partition, l.options⟩

/-- The payload of an export, which has no partition. -/
def Export.payload (e : Export) : Payload := ⟨e.path, none, e.options⟩

/-- The payload of a load or an export. -/
def Statement.payload? : Statement → Option Payload
  | load l => some l.payload
  | exportRows e => some e.payload
  | _ => none

namespace Payload

/-- The entries of the partition. -/
def partitionEntries (p : Payload) : List PartitionEntry := p.partition.elim [] (·.entries)

/-- The entries of the options. -/
def optionEntries (p : Payload) : List OptionEntry := p.options.elim [] (·.entries)

/-- The path is a text, and the numbers behind it are written as such. -/
structure IsWritten (p : Payload) : Prop where
  path : ∃ value, p.path.value = .string value
  partition : ∀ e ∈ p.partitionEntries, ∀ c ∈ e.value, c.value.IsWritten
  options : ∀ e ∈ p.optionEntries, e.value.value.IsWritten

end Payload

/-- What the productions ensure of merges, loads and exports. -/
structure Statement.Ensured (s : Statement) : Prop where
  merge : ∀ m, s = .merge m → ∀ c ∈ m.clauses, c.action.Suits c.rows
  payload : ∀ p ∈ s.payload?, p.IsWritten

namespace Grammar

variable {T : Token → Prop}

/-! ### Merges -/

section

variable (inner : Inner)

theorem changeAction_ensures {rows : MergeRows} {fromSource : Bool} (hrows : rows ≠ .notMatched)
    (hsource : fromSource = true → rows = .matched) :
  (changeAction inner fromSource).Ensures T (·.Suits rows)
  := by
  apply ensures_bind
  intro deletes
  apply ensures_ite
  · intro _
    apply ensures_pure
    apply Action.Suits.delete hrows
  · intro _
    apply ensures_bind
    intro updates
    apply ensures_ite
    · intro _
      apply ensures_bind
      intro _
      apply ensures_bind
      intro _
      have hall : (allColumns fromSource).Ensures T fun all => all = true → fromSource = true := by
        apply ensures_ite
        · intro h
          exact ⟨fun _ _ _ => h⟩
        · intro _
          apply ensures_pure
          simp
      apply hall.bind
      intro all hall
      apply ensures_ite
      · intro h
        apply ensures_pure
        rw [hsource (hall h)]
        apply Action.Suits.updateAll
      · intro _
        apply ((ensures_true (assignment inner)).commaList inner.bound).bind
        rintro assignments ⟨hne, -⟩
        apply ensures_pure
        apply Action.Suits.update hrows hne
    · intro _
      apply ensures_expected

theorem expressionsToParen_ensures :
  (expressionsToParen inner).Ensures T (· ≠ [])
  := by
  apply ((ensures_true inner.expression).commaList inner.bound).bind
  rintro items ⟨hne, -⟩
  apply ensures_bind
  intro _
  exact ensures_pure hne

theorem insertAction_ensures :
  (insertAction inner).Ensures T (·.Suits .notMatched)
  := by
  apply ensures_bind
  intro _
  apply ensures_bind
  intro all
  apply ensures_ite
  · intro _
    apply ensures_pure
    apply Action.Suits.insertAll
  · intro _
    apply ensures_bind
    intro columns
    apply ensures_bind
    intro _
    apply ensures_bind
    intro _
    apply (expressionsToParen_ensures inner).bind
    intro values hne
    apply ensures_pure
    apply Action.Suits.insert hne

/-- A clause does what suits the rows that it concerns. -/
theorem clause_ensures :
  (clause inner).Ensures T fun c => c.action.Suits c.rows
  := by
  apply ensures_bind
  intro start
  apply ensures_bind
  intro _
  apply ensures_bind
  intro rows
  apply ensures_bind
  intro condition
  apply ensures_bind
  intro _
  have haction : ∀ {p : Production Action}, p.Ensures T (·.Suits rows) → (do
      let action ← p
      return ⟨rows, condition, action, ← spanFrom start⟩ : Production Clause).Ensures T
        fun c => c.action.Suits c.rows := by
    intro p hp
    apply hp.bind
    intro action hsuits
    apply ensures_bind
    intro span
    exact ensures_pure hsuits
  cases rows with
  | notMatched => apply haction (insertAction_ensures inner)
  | matched => apply haction (changeAction_ensures inner (by simp) (by simp))
  | notMatchedBySource => apply haction (changeAction_ensures inner (by simp) (by simp))

theorem merge_ensures :
  (merge inner).Ensures T fun m => ∀ c ∈ m.clauses, c.action.Suits c.rows
  := by
  have hclauses : (clauses inner).Ensures T fun cs => ∀ c ∈ cs, c.action.Suits c.rows := by
    have hentry : (do if ← nextIs (.keyword .WHEN) then some <$> clause inner else return none :
        Production (Option Clause)).Ensures T fun o => ∀ c ∈ o, c.action.Suits c.rows := by
      apply ensures_bind
      intro _
      apply ensures_ite
      · intro _
        apply (clause_ensures inner).some
      · intro _
        apply ensures_none
    apply (hentry.collect inner.bound).bind
    intro found hfound
    apply ensures_ite
    · intro _
      apply ensures_expected
    · intro _
      apply ensures_pure hfound
  iterate 10
    apply ensures_bind
    intro _
  apply hclauses.bind
  intro found hfound
  apply ensures_bind
  intro _
  exact ensures_pure hfound

end

/-! ### Constants -/

section

variable (bound : Nat)

theorem literal_ensures :
  (literal bound).Ensures Token.IsWritten Literal.IsWritten
  := by
  constructor
  intro s l s' hs hreads
  obtain ⟨t, m, ht, h⟩ := reads_bind.mp hreads
  obtain ⟨ht, rfl⟩ := reads_peek.mp ht
  have hpure : ∀ l' : Literal, l'.IsWritten → (do
      let _ ← advance
      return l' : Production Literal).Reads m l s' → l.IsWritten := by
    intro l' hl' h
    simp only [reads_bind, reads_pure] at h
    obtain ⟨_, _, _, rfl, _⟩ := h
    exact hl'
  split at h
  · exact hpure .null trivial h
  · exact hpure (.boolean true) trivial h
  · exact hpure (.boolean false) trivial h
  · simp only [reads_bind, reads_pure] at h
    obtain ⟨_, _, _, _, _, _, rfl, _⟩ := h
    trivial
  · simp only [reads_bind, reads_pure] at h
    obtain ⟨_, _, _, rfl, _⟩ := h
    trivial
  · next hminus =>
      simp only [reads_bind, reads_peekAt] at h
      obtain ⟨u, m, ⟨hu, rfl⟩, h⟩ := h
      split at h
      · next form hform =>
          simp only [reads_bind, reads_pure] at h
          obtain ⟨_, r, hadvance, _, _, hadvance', rfl, _⟩ := h
          obtain ⟨rfl, htakes⟩ := takes_of_advance ht (by simp [hminus]) hadvance
          have hu' : r.peek 0 = .ok u := (htakes.peek_add 0).symm.trans hu
          obtain ⟨rfl, -⟩ := takes_of_advance hu' (by simp [hform]) hadvance'
          have hmem := Tape.mem_tokens_of_peek hu (by simp [hform])
          obtain ⟨after, hrule⟩ := hs _ hmem form hform
          apply NumberForm.Writes.negative (by simp) hrule
      · simp at h
  · simp only [reads_bind, reads_peekAt] at h
    obtain ⟨u, m, ⟨hu, rfl⟩, h⟩ := h
    split at h
    · simp only [typedText, reads_bind, reads_pure] at h
      obtain ⟨_, _, _, _, _, _, rfl, _⟩ := h
      trivial
    · simp at h
  · next form hform =>
      have hmem := Tape.mem_tokens_of_peek ht (by simp [hform])
      obtain ⟨after, hrule⟩ := hs _ hmem form hform
      exact hpure (.number form t.text) (.plain hrule) h
  · simp at h

theorem constant_ensures :
  (constant bound).Ensures Token.IsWritten fun c => c.value.IsWritten
  := by
  apply ensures_bind
  intro start
  apply (literal_ensures bound).bind
  intro value hvalue
  apply ensures_bind
  intro span
  exact ensures_pure hvalue

theorem textConstant_ensures :
  (textConstant bound).Ensures T fun c => ∃ value, c.value = .string value
  := by
  constructor
  intro s c s' _ hreads
  simp only [textConstant, reads_bind, reads_nextIs] at hreads
  obtain ⟨_, m, ⟨⟨t, ht, rfl⟩, rfl⟩, h⟩ := hreads
  split at h
  · next hkind =>
      simp only [decide_eq_true_eq] at hkind
      simp only [constant, literal, reads_bind, reads_here, reads_peek, reads_pure] at h
      obtain ⟨_, _, ⟨-, rfl⟩, value, _, ⟨u, _, ⟨hu, rfl⟩, h⟩, _, _, -, rfl, -⟩ := h
      obtain rfl := Except.ok.inj (ht.symm.trans hu)
      simp only [hkind, reads_bind, reads_pure] at h
      obtain ⟨text, _, _, rfl, _⟩ := h
      exact ⟨text, rfl⟩
  · simp at h

/-! ### Loads and exports -/

theorem partition?_ensures :
  (partition? bound).Ensures Token.IsWritten fun o =>
    ∀ p ∈ o, ∀ e ∈ p.entries, ∀ c ∈ e.value, c.value.IsWritten
  := by
  have hentry : (partitionEntry bound).Ensures Token.IsWritten fun e =>
      ∀ c ∈ e.value, c.value.IsWritten := by
    apply ensures_bind
    intro start
    apply ensures_bind
    intro column
    apply (constant_ensures bound).afterToken?.bind
    intro value hvalue
    apply ensures_bind
    intro span
    exact ensures_pure hvalue
  apply ensures_bind
  intro start
  apply Ensures.afterToken?
  apply ensures_bind
  intro _
  apply (hentry.commaList bound).bind
  rintro entries ⟨-, hentries⟩
  apply ensures_bind
  intro _
  apply ensures_bind
  intro span
  exact ensures_pure hentries

theorem options?_ensures :
  (options? bound).Ensures Token.IsWritten fun o =>
    ∀ list ∈ o, ∀ e ∈ list.entries, e.value.value.IsWritten
  := by
  have hentry : (optionEntry bound).Ensures Token.IsWritten fun e => e.value.value.IsWritten := by
    iterate 4
      apply ensures_bind
      intro _
    apply (constant_ensures bound).bind
    intro value hvalue
    apply ensures_bind
    intro span
    exact ensures_pure hvalue
  apply Ensures.afterToken?
  apply ensures_bind
  intro start
  apply ensures_bind
  intro _
  apply (hentry.commaList bound).bind
  rintro entries ⟨-, hentries⟩
  apply ensures_bind
  intro _
  apply ensures_bind
  intro span
  exact ensures_pure hentries

theorem load_ensures :
  (load bound).Ensures Token.IsWritten fun l => l.payload.IsWritten
  := by
  iterate 5
    apply ensures_bind
    intro _
  apply (textConstant_ensures bound).bind
  intro path hpath
  iterate 4
    apply ensures_bind
    intro _
  apply (partition?_ensures bound).bind
  intro partition hpartition
  apply (options?_ensures bound).bind
  intro options hoptions
  apply ensures_bind
  intro span
  apply ensures_pure
  refine ⟨hpath, ?_, ?_⟩
  · cases partition with
    | none => simp [Load.payload, Payload.partitionEntries]
    | some p => exact hpartition p rfl
  · cases options with
    | none => simp [Load.payload, Payload.optionEntries]
    | some o => exact hoptions o rfl

end

theorem exportRows_ensures (inner : Inner) :
  (exportRows inner).Ensures Token.IsWritten fun e => e.payload.IsWritten
  := by
  iterate 4
    apply ensures_bind
    intro _
  apply (textConstant_ensures inner.bound).bind
  intro path hpath
  apply ensures_bind
  intro format
  apply (options?_ensures inner.bound).bind
  intro options hoptions
  apply ensures_bind
  intro span
  apply ensures_pure
  refine ⟨hpath, by simp [Export.payload, Payload.partitionEntries], ?_⟩
  cases options with
  | none => simp [Export.payload, Payload.optionEntries]
  | some o => exact hoptions o rfl

/-! ### Statements -/

theorem statement_ensures (inner : Inner) :
  (statement inner).Ensures Token.IsWritten Statement.Ensured
  := by
  apply ensures_bind
  intro t
  have hquery : (do return .query (← inner.query) : Production Statement).Ensures
      Token.IsWritten Statement.Ensured := by
    apply ensures_bind
    intro q
    exact ensures_pure ⟨by simp, by simp [Statement.payload?]⟩
  have hverbatim : (do return .verbatim (← verbatim inner.bound) : Production Statement).Ensures
      Token.IsWritten Statement.Ensured := by
    apply ensures_bind
    intro v
    exact ensures_pure ⟨by simp, by simp [Statement.payload?]⟩
  split
  · apply (merge_ensures inner).bind
    intro m hm
    exact ensures_pure ⟨by simpa using hm, by simp [Statement.payload?]⟩
  · apply (load_ensures inner.bound).bind
    intro l hl
    exact ensures_pure ⟨by simp, by simpa [Statement.payload?] using hl⟩
  · apply (exportRows_ensures inner).bind
    intro e he
    exact ensures_pure ⟨by simp, by simpa [Statement.payload?] using he⟩
  iterate 5
    · apply hquery
  iterate 4
    · apply hverbatim
  · apply ensures_expected

end Grammar

/-- What the grammar ensures holds of the statement that a text is read as. -/
theorem ensured_of_parseStatement {text : String} {s : Statement}
    (h : parseStatement text = .ok (.statement s)) :
  s.Ensured
  := by
  obtain ⟨r, hreads⟩ := (parseStatement_eq_ok (Nat.lt_succ_self _)).mp h
  simp only [soleStatement, reads_bind, reads_pure] at hreads
  obtain ⟨a, m, ha, _, _, _, _, _, _, hnode, _⟩ := hreads
  obtain rfl := Node.statement.inj hnode
  apply (statement_ensures _).of_reads _ ha
  apply Cursor.numberRule_of_mem_visible

end SqlFront
