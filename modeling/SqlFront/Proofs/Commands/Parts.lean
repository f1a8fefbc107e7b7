import SqlFront.Proofs.Commands.Merges
import SqlFront.Proofs.Commands.Payloads

/-!
# What refusals are about

A statement that is no command is refused because of some part of its tree: the fault has the region
of this part or, for an option that repeats an earlier one, that of its key
(`Command.isAbout_of_ofNode`).
-/

namespace SqlFront

/-- The region of the fault is that of a part within the tree, or that of the key of an option. -/
inductive Fault.IsAbout (tree : Part) (e : Fault) : Prop where
  | part {p : Part} (isWithin : p.Within tree) (span_eq : e.span = p.span)
  | key {o : OptionEntry} (isWithin : (Part.optionEntry o).Within tree) (span_eq : e.span = o.keySpan)

variable {e : Fault} {p q : Part}

namespace Part.Within

theorem of_child (h : p ∈ q.children) :
  p.Within q
  := .child (.refl p) h

theorem trans {r : Part} (hp : p.Within q) (hq : q.Within r) :
  p.Within r
  := by
  induction hq with
  | refl => exact hp
  | child _ isChild ih => exact .child ih isChild

end Part.Within

theorem Fault.IsAbout.within (h : e.IsAbout p) (hp : p.Within q) :
  e.IsAbout q
  := by
  cases h with
  | part isWithin span_eq => exact .part (isWithin.trans hp) span_eq
  | key isWithin span_eq => exact .key (isWithin.trans hp) span_eq

/-! ### Constants -/

theorem Value.isAbout_of_ofConstant {c : Constant} (h : Value.ofConstant c = .error e) :
  e.IsAbout (.constant c)
  := by
  rw [ofConstant] at h
  cases hvalue : ofLiteral c.value with
  | ok value => simp [hvalue, Except.mapError] at h
  | error cause =>
      simp only [hvalue, Except.mapError, Except.error.injEq] at h
      subst h
      exact .part (.refl _) rfl

theorem isAbout_of_pathOf {c : Constant} (h : pathOf c = .error e) :
  e.IsAbout (.constant c)
  := by
  obtain ⟨value, span⟩ := c
  have hspan : e.span = span := by
    cases value with
    | string path =>
        simp only [pathOf] at h
        split at h
        · simp only [Except.error.injEq] at h
          rw [← h]
        · contradiction
    | _ =>
        simp only [pathOf, Except.error.injEq] at h
        rw [← h]
  exact .part (.refl _) hspan

/-! ### Partitions and options -/

/-- The fault of entries is that of one of them. -/
theorem exists_mem_of_distinctValues {α β κ : Type} [DecidableEq κ] {key : α → κ}
    {fault : α → Fault} {value : α → Except Fault β} {as : List α}
    (h : distinctValues key fault value [] as = .error e) :
  ∃ a ∈ as, e = fault a ∨ value a = .error e
  := by
  obtain ⟨i, ⟨a, ha, hoffends⟩, -⟩ := distinctValues_eq_error.mp h
  use a, List.mem_of_getElem? ha
  rcases hoffends with ⟨-, hfault⟩ | ⟨-, hvalue⟩
  · exact .inl hfault
  · exact .inr hvalue

theorem isAbout_of_ofPartition? {o : Option Partition}
    (h : PartitionSpec.ofPartition? o = .error e) :
  ∃ d, o = some d ∧ e.IsAbout (.partition d)
  := by
  cases o with
  | none => contradiction
  | some d =>
      use d, rfl
      have hvalues := map_eq_error_iff.mp h
      rw [partitionValues_eq] at hvalues
      obtain ⟨entry, hmem, hentry⟩ := exists_mem_of_distinctValues hvalues
      have hbelow : Part.partitionEntry entry ∈ (Part.partition d).children :=
        List.mem_map_of_mem hmem
      rcases hentry with hfault | hgiven
      · exact .part (.of_child hbelow) (by rw [hfault]; rfl)
      · have hvalue : valueOf? entry.value = .error e := map_eq_error_iff.mp hgiven
        cases hc : entry.value with
        | none => simp [hc, valueOf?] at hvalue
        | some c =>
            rw [hc] at hvalue
            have habout := Value.isAbout_of_ofConstant (map_eq_error_iff.mp hvalue)
            have hchild : Part.constant c ∈ (Part.partitionEntry entry).children := by
              simp [Part.children, hc]
            exact habout.within (.child (.of_child hchild) hbelow)

theorem isAbout_of_ofList? {o : Option OptionList} (h : Options.ofList? o = .error e) :
  ∃ list, o = some list ∧ e.IsAbout (.options list)
  := by
  cases o with
  | none => contradiction
  | some list =>
      use list, rfl
      have hvalues := map_eq_error_iff.mp h
      rw [optionValues_eq] at hvalues
      obtain ⟨entry, hmem, hentry⟩ := exists_mem_of_distinctValues hvalues
      have hbelow : Part.optionEntry entry ∈ (Part.options list).children :=
        List.mem_map_of_mem hmem
      rcases hentry with hfault | hgiven
      · exact .key (.of_child hbelow) (by rw [hfault])
      · have habout := Value.isAbout_of_ofConstant (map_eq_error_iff.mp hgiven)
        have hchild : Part.constant entry.value ∈ (Part.optionEntry entry).children :=
          List.mem_singleton_self _
        exact habout.within (.child (.of_child hchild) hbelow)

/-- The parts of a payload are below the statement that it is the payload of. -/
theorem isAbout_of_values {p : Payload} (hpath : .constant p.path ∈ q.children)
    (hpartition : ∀ d, p.partition = some d → .partition d ∈ q.children)
    (hoptions : ∀ list, p.options = some list → .options list ∈ q.children)
    (h : p.values = .error e) :
  e.IsAbout q
  := by
  rcases Payload.values_eq_error_iff.mp h with h | ⟨-, h | ⟨-, h⟩⟩
  · exact (isAbout_of_pathOf h).within (.of_child hpath)
  · obtain ⟨d, hd, habout⟩ := isAbout_of_ofPartition? h
    exact habout.within (.of_child (hpartition d hd))
  · obtain ⟨list, hlist, habout⟩ := isAbout_of_ofList? h
    exact habout.within (.of_child (hoptions list hlist))

/-! ### Statements -/

theorem isAbout_of_ofMerge {m : Merge} (h : MergeCommand.ofMerge m = .error e) :
  e.IsAbout (.merge m)
  := by
  have hclause : ∃ c ∈ m.clauses, e.span = c.span := by
    rcases MergeCommand.ofMerge_eq_error.mp h with
      ⟨i, ⟨c, hc, -, -, rfl⟩, -⟩ | ⟨-, i, ⟨c, hc, n, k, -, rfl⟩, -⟩
    · exact ⟨c, List.mem_of_getElem? hc, rfl⟩
    · exact ⟨c, List.mem_of_getElem? hc, rfl⟩
  obtain ⟨c, hc, hspan⟩ := hclause
  have hchild : Part.clause c ∈ (Part.merge m).children := by
    simp [Part.children, hc]
  exact .part (.of_child hchild) hspan

/-- A tree that is no command is refused because of a part of it. -/
theorem Command.isAbout_of_ofNode {node : Node} (h : Command.ofNode node = .error e) :
  e.IsAbout node.part
  := by
  cases node with
  | expression x =>
      simp only [ofNode, Except.error.injEq] at h
      exact .part (.refl _) (by rw [← h]; rfl)
  | statement s =>
      cases s with
      | merge m => exact isAbout_of_ofMerge (map_eq_error_iff.mp h)
      | load l =>
          apply isAbout_of_values (p := l.payload) _ _ _ ((ofNode_eq_error rfl).mp h)
          · simp [Node.part, Statement.part, Part.children, Load.payload]
          · intro d hd
            simp_all [Node.part, Statement.part, Part.children, Load.payload]
          · intro list hlist
            simp_all [Node.part, Statement.part, Part.children, Load.payload]
      | exportRows d =>
          apply isAbout_of_values (p := d.payload) _ _ _ ((ofNode_eq_error rfl).mp h)
          · simp [Node.part, Statement.part, Part.children, Export.payload]
          · intro d hd
            contradiction
          · intro list hlist
            simp_all [Node.part, Statement.part, Part.children, Export.payload]
      | query | verbatim => contradiction

end SqlFront
