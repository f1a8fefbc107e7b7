import SqlFront.Proofs.Commands.First
import SqlFront.Proofs.Commands.Loads
import SqlFront.Proofs.Commands.Values

/-!
# Payloads of loads and exports

A load and an export give a path, options and, for a load, a partition.  Their entries are taken
over one by one: the keys of the options differ, the columns of the partition differ in any case,
and so every entry is found by its key or its column.  The command is refused because of its path,
or because of the first entry that repeats an earlier one or has no value (`Payload.Refused`).
-/

namespace SqlFront

open Grammar

/-! ### Distinct entries -/

section

variable {α β κ : Type} [DecidableEq κ] {key : α → κ} {fault : α → Fault}
  {value : α → Except Fault β} {seen : List κ} {as : List α} {bs : List β} {e : Fault}

/-- The values of entries, after those with the keys `seen`; `fault` is that of an entry with the
key of an earlier one. -/
def distinctValues (key : α → κ) (fault : α → Fault) (value : α → Except Fault β)
    (seen : List κ) : List α → Except Fault (List β)
  | [] => .ok []
  | a :: rest =>
    if key a ∈ seen then .error (fault a)
    else
      match value a, distinctValues key fault value (key a :: seen) rest with
      | .error e, _ => .error e
      | .ok _, .error e => .error e
      | .ok b, .ok bs => .ok (b :: bs)

/-- The entry at the place `i` has the key of an earlier one, or no value. -/
def OffendsAt (key : α → κ) (fault : α → Fault) (refuses : α → Fault → Prop) (as : List α)
    (i : Nat) (e : Fault) : Prop :=
  ∃ a, as[i]? = some a ∧ (key a ∈ (as.take i).map key ∧ e = fault a ∨
    key a ∉ (as.take i).map key ∧ refuses a e)

theorem distinctValues_cons (a : α) (h : key a ∉ seen) :
  distinctValues key fault value seen (a :: as) = .ok bs ↔
    ∃ b cs, value a = .ok b ∧ distinctValues key fault value (key a :: seen) as = .ok cs ∧
      bs = b :: cs
  := by
  rw [distinctValues, if_neg h]
  cases value a with
  | error e => simp
  | ok b => cases distinctValues key fault value (key a :: seen) as <;> simp [eq_comm]

theorem distinctValues_eq_ok :
  distinctValues key fault value seen as = .ok bs ↔
    List.Forall₂ (fun a b => value a = .ok b) as bs ∧ (as.map key).Nodup ∧
      ∀ a ∈ as, key a ∉ seen
  := by
  induction as generalizing seen bs with
  | nil => cases bs <;> simp [distinctValues]
  | cons a as ih =>
      rw [List.map_cons, List.nodup_cons, List.forall_mem_cons]
      by_cases hseen : key a ∈ seen
      · simp [distinctValues, hseen]
      · rw [distinctValues_cons a hseen, List.forall₂_cons_left_iff]
        simp only [ih, List.mem_cons, not_or, List.mem_map, not_exists, not_and]
        constructor
        · rintro ⟨b, cs, hb, ⟨hforall, hnodup, hfresh⟩, rfl⟩
          refine ⟨⟨b, cs, hb, hforall, rfl⟩, ⟨fun d hd => (hfresh d hd).1, hnodup⟩, hseen, ?_⟩
          exact fun d hd => (hfresh d hd).2
        · rintro ⟨⟨b, cs, hb, hforall, rfl⟩, ⟨hdiffers, hnodup⟩, -, hfresh⟩
          refine ⟨b, cs, hb, ⟨hforall, hnodup, ?_⟩, rfl⟩
          exact fun d hd => ⟨hdiffers d hd, hfresh d hd⟩

/-- Behind entries with the keys `seen`, the fault is that of the first entry that offends. -/
theorem distinctValues_eq_error_behind (seen : List κ) (before : List α)
    (hseen : ∀ k, k ∈ seen ↔ k ∈ before.map key) :
  distinctValues key fault value seen as = .error e ↔ ∃ i, FirstAt (fun i =>
    OffendsAt key fault (fun a e => value a = .error e) (before ++ as) (before.length + i)) i e
  := by
  induction as generalizing seen before with
  | nil => simp [distinctValues, FirstAt, OffendsAt]
  | cons a as ih =>
      have hzero : ∀ f, OffendsAt key fault (fun a e => value a = .error e) (before ++ a :: as)
          (before.length + 0) f ↔
          key a ∈ seen ∧ f = fault a ∨ key a ∉ seen ∧ value a = .error f := by
        intro f
        simp [OffendsAt, hseen]
      have hrest := ih (key a :: seen) (before ++ [a]) (by simp [hseen, or_comm])
      simp only [List.append_assoc, List.singleton_append, List.length_append, List.length_singleton,
        Nat.add_assoc, Nat.add_comm 1] at hrest
      rw [exists_firstAt_iff, ← hrest, distinctValues]
      simp only [hzero]
      by_cases h : key a ∈ seen
      · simp [h, eq_comm]
      · cases ha : value a with
        | error e' => simp [h]
        | ok b => cases distinctValues key fault value (key a :: seen) as <;> simp [h]

/-- The fault is that of the first entry that has the key of an earlier one or no value. -/
theorem distinctValues_eq_error :
  distinctValues key fault value [] as = .error e ↔
    ∃ i, FirstAt (OffendsAt key fault (fun a e => value a = .error e) as) i e
  := by
  simpa using distinctValues_eq_error_behind [] [] (by simp)

end

/-! ### Partitions and options -/

/-- The entry at the place `i` names a column that an earlier one names in any case, or its value is
refused. -/
def PartitionEntry.OffendsAt : List PartitionEntry → Nat → Fault → Prop :=
  SqlFront.OffendsAt (·.column.value.toUpper) (fun e => ⟨.repeatedColumn e.column.value, e.span⟩)
    fun e f => ∃ c cause, e.value = some c ∧ c.value.Refused cause ∧ f = ⟨cause, c.span⟩

/-- The entry at the place `i` has the key of an earlier one, or its value is refused. -/
def OptionEntry.OffendsAt : List OptionEntry → Nat → Fault → Prop :=
  SqlFront.OffendsAt (·.key) (fun e => ⟨.repeatedOption e.key, e.keySpan⟩)
    fun e f => ∃ cause, e.value.value.Refused cause ∧ f = ⟨cause, e.value.span⟩

/-- What a partition entry stands for. -/
def PartitionEntry.given (e : PartitionEntry) : Except Fault PartitionValue :=
  (valueOf? e.value).map (⟨e.column.value, ·⟩)

/-- What an option stands for. -/
def OptionEntry.given (e : OptionEntry) : Except Fault (String × Value) :=
  (Value.ofConstant e.value).map (e.key, ·)

theorem partitionValues_eq (seen : List String) (es : List PartitionEntry) :
  partitionValues seen es = distinctValues (·.column.value.toLower)
    (fun e => ⟨.repeatedColumn e.column.value, e.span⟩) PartitionEntry.given seen es
  := by
  induction es generalizing seen with
  | nil => rfl
  | cons e es ih =>
      rw [partitionValues, distinctValues]
      split
      · rfl
      · rw [← ih, PartitionEntry.given]
        cases valueOf? e.value with
        | error f => rfl
        | ok v => cases partitionValues (e.column.value.toLower :: seen) es <;> rfl

theorem optionValues_eq (seen : List String) (es : List OptionEntry) :
  optionValues seen es = distinctValues (·.key) (fun e => ⟨.repeatedOption e.key, e.keySpan⟩)
    OptionEntry.given seen es
  := by
  induction es generalizing seen with
  | nil => rfl
  | cons e es ih =>
      rw [optionValues, distinctValues]
      split
      · rfl
      · rw [← ih, OptionEntry.given]
        cases Value.ofConstant e.value with
        | error f => rfl
        | ok v => cases optionValues (e.key :: seen) es <;> rfl

section

variable {α κ κ' : Type} {key : α → κ} {key' : α → κ'} {fault : α → Fault}
  {refuses refuses' : α → Fault → Prop} {as : List α}

/-- It does not matter which keys tell entries apart, as long as they tell the same ones apart. -/
theorem offendsAt_congr (hkey : ∀ a b, key a = key b ↔ key' a = key' b)
    (hrefuses : ∀ a ∈ as, ∀ e, refuses a e ↔ refuses' a e) :
  OffendsAt key fault refuses as = OffendsAt key' fault refuses' as
  := by
  funext i e
  apply propext
  simp only [OffendsAt, List.mem_map, hkey]
  constructor
  · rintro ⟨a, ha, hrepeats | ⟨hfresh, hrefused⟩⟩
    · exact ⟨a, ha, .inl hrepeats⟩
    · exact ⟨a, ha, .inr ⟨hfresh, (hrefuses a (List.mem_of_getElem? ha) e).mp hrefused⟩⟩
  · rintro ⟨a, ha, hrepeats | ⟨hfresh, hrefused⟩⟩
    · exact ⟨a, ha, .inl hrepeats⟩
    · exact ⟨a, ha, .inr ⟨hfresh, (hrefuses a (List.mem_of_getElem? ha) e).mpr hrefused⟩⟩

end

theorem partitionValues_eq_error {es : List PartitionEntry} {e : Fault}
    (h : ∀ d ∈ es, ∀ c ∈ d.value, c.value.IsWritten) :
  partitionValues [] es = .error e ↔ ∃ i, FirstAt (PartitionEntry.OffendsAt es) i e
  := by
  rw [partitionValues_eq, distinctValues_eq_error, PartitionEntry.OffendsAt]
  rw [offendsAt_congr fun _ _ => toLower_eq_iff_toUpper]
  intro d hd f
  rw [PartitionEntry.given]
  cases hvalue : d.value with
  | none => simp [valueOf?, Except.map]
  | some c =>
      have hc := Value.ofConstant_eq_error (e := f) (h d hd c hvalue)
      cases hgiven : Value.ofConstant c <;> simp_all [valueOf?, Except.map]

theorem optionValues_eq_error {es : List OptionEntry} {e : Fault}
    (h : ∀ d ∈ es, d.value.value.IsWritten) :
  optionValues [] es = .error e ↔ ∃ i, FirstAt (OptionEntry.OffendsAt es) i e
  := by
  rw [optionValues_eq, distinctValues_eq_error, OptionEntry.OffendsAt]
  rw [offendsAt_congr fun (_ _ : OptionEntry) => Iff.rfl]
  intro d hd f
  have hc := Value.ofConstant_eq_error (e := f) (h d hd)
  rw [OptionEntry.given]
  cases hgiven : Value.ofConstant d.value <;> simp_all [Except.map]

theorem map_eq_map_of_forall₂ {α β γ : Type} {f : α → γ} {g : β → γ} {as : List α} {bs : List β}
    (h : List.Forall₂ (fun a b => f a = g b) as bs) :
  as.map f = bs.map g
  := by
  rwa [← List.forall₂_eq_eq_eq, List.forall₂_map_left_iff, List.forall₂_map_right_iff]

/-- The entries of a partition have the values given, and their columns differ in any case. -/
theorem partitionValues_eq_ok {es : List PartitionEntry} {vs : List PartitionValue}
    (h : partitionValues [] es = .ok vs) :
  List.Forall₂ (fun (e : PartitionEntry) (d : PartitionValue) =>
      d.column = e.column.value ∧ valueOf? e.value = .ok d.value) es vs ∧
    (vs.map (·.column.toUpper)).Nodup
  := by
  rw [partitionValues_eq, distinctValues_eq_ok] at h
  obtain ⟨hgiven, hnodup, -⟩ := h
  have hforall : List.Forall₂ (fun (e : PartitionEntry) (d : PartitionValue) =>
      d.column = e.column.value ∧ valueOf? e.value = .ok d.value) es vs := by
    apply hgiven.imp
    intro e d hd
    obtain ⟨value, hvalue, rfl⟩ := map_eq_ok_iff.mp hd
    exact ⟨rfl, hvalue⟩
  refine ⟨hforall, ?_⟩
  have hcolumns : es.map (·.column.value.toLower) = vs.map (·.column.toLower) := by
    apply map_eq_map_of_forall₂
    apply hforall.imp
    rintro e d ⟨hcolumn, -⟩
    rw [hcolumn]
  rw [hcolumns] at hnodup
  simpa only [List.Nodup, List.pairwise_map, ne_eq, toLower_eq_iff_toUpper] using hnodup

/-- The options have the values given, and their keys differ. -/
theorem optionValues_eq_ok {es : List OptionEntry} {vs : List (String × Value)}
    (h : optionValues [] es = .ok vs) :
  List.Forall₂ (fun (e : OptionEntry) (d : String × Value) =>
      d.1 = e.key ∧ Value.ofConstant e.value = .ok d.2) es vs ∧ (vs.map (·.1)).Nodup
  := by
  rw [optionValues_eq, distinctValues_eq_ok] at h
  obtain ⟨hgiven, hnodup, -⟩ := h
  have hforall : List.Forall₂ (fun (e : OptionEntry) (d : String × Value) =>
      d.1 = e.key ∧ Value.ofConstant e.value = .ok d.2) es vs := by
    apply hgiven.imp
    intro e d hd
    obtain ⟨value, hvalue, rfl⟩ := map_eq_ok_iff.mp hd
    exact ⟨rfl, hvalue⟩
  refine ⟨hforall, ?_⟩
  have hkeys : es.map (·.key) = vs.map (·.1) := by
    apply map_eq_map_of_forall₂
    apply hforall.imp
    rintro e d ⟨hkey, -⟩
    rw [hkey]
  rwa [← hkeys]

/-! ### Look-ups -/

/-- Where the keys of entries differ, the one with a key is found by it. -/
theorem find?_eq_some_iff_of_nodup {α κ : Type} [DecidableEq κ] {key : α → κ} {as : List α}
    (h : (as.map key).Nodup) {k : κ} {a : α} :
  as.find? (fun b => decide (key b = k)) = some a ↔ a ∈ as ∧ key a = k
  := by
  induction as with
  | nil => simp
  | cons b as ih =>
      rw [List.map_cons, List.nodup_cons] at h
      by_cases hb : key b = k
      · rw [List.find?_cons_of_pos (by simpa using hb), Option.some.injEq, List.mem_cons]
        constructor
        · rintro rfl
          exact ⟨.inl rfl, hb⟩
        · rintro ⟨rfl | ha, hk⟩
          · rfl
          · exact (h.1 (hb.trans hk.symm ▸ List.mem_map_of_mem ha)).elim
      · rw [List.find?_cons_of_neg (by simpa using hb), ih h.2, List.mem_cons]
        constructor
        · rintro ⟨ha, hk⟩
          exact ⟨.inr ha, hk⟩
        · rintro ⟨rfl | ha, hk⟩
          · contradiction
          · exact ⟨ha, hk⟩

namespace Payload

/-! ### Payloads of commands -/

/-- What the payload of a command consists of. -/
structure Values where
  path : String
  partition : Option PartitionSpec
  options : Options

/-- The entries of the partition of a command. -/
def Values.partitionEntries (v : Values) : List PartitionValue := v.partition.elim [] (·.entries)

variable {p : Payload} {v : Values} {e : Fault}

/-- The values of a payload. -/
def values (p : Payload) : Except Fault Values := do
  let path ← pathOf p.path
  let partition ← PartitionSpec.ofPartition? p.partition
  let options ← Options.ofList? p.options
  return ⟨path, partition, options⟩

/-- The values are those of the payload, one by one: the path is its path and not empty, the
columns of the partition differ in any case and have the values of its entries, and the keys of the
options differ and have the values of its entries.  So each entry is found by its column or key. -/
structure Gives (p : Payload) (v : Values) : Prop where
  path : p.path.value = .string v.path
  nonempty : v.path ≠ ""
  isSome_partition : v.partition.isSome = p.partition.isSome
  partition : List.Forall₂ (fun (e : PartitionEntry) (d : PartitionValue) =>
    d.column = e.column.value ∧ valueOf? e.value = .ok d.value) p.partitionEntries v.partitionEntries
  columns : (v.partitionEntries.map (·.column.toUpper)).Nodup
  get?_partition : ∀ spec ∈ v.partition, ∀ column d,
    spec.get? column = some d ↔ d ∈ spec.entries ∧ d.column.toUpper = column.toUpper
  options : List.Forall₂ (fun (e : OptionEntry) (o : String × Value) =>
    o.1 = e.key ∧ Value.ofConstant e.value = .ok o.2) p.optionEntries v.options.entries
  keys : (v.options.entries.map (·.1)).Nodup
  get?_options : ∀ key value, v.options.get? key = some value ↔ (key, value) ∈ v.options.entries

/-- Why a payload is refused: the path is empty or, if it is not, a first partition entry repeats a
column or is refused or, if none is, a first option repeats a key or is refused. -/
inductive Refused (p : Payload) : Fault → Prop where
  | path (isEmpty : p.path.value = .string "") : Refused p ⟨.emptyPath, p.path.span⟩
  | partition {i : Nat} {e : Fault} (isPath : p.path.value ≠ .string "")
      (isFirst : FirstAt (PartitionEntry.OffendsAt p.partitionEntries) i e) : Refused p e
  | options {i : Nat} {e : Fault} (isPath : p.path.value ≠ .string "")
      (noneBefore : ∀ j f, ¬ PartitionEntry.OffendsAt p.partitionEntries j f)
      (isFirst : FirstAt (OptionEntry.OffendsAt p.optionEntries) i e) : Refused p e

theorem ofPartition?_eq (o : Option Partition) :
  PartitionSpec.ofPartition? o = (partitionValues [] (o.elim [] (·.entries))).map
    fun entries => o.map fun _ => ⟨entries⟩
  := by
  cases o <;> rfl

theorem ofList?_eq (o : Option OptionList) :
  Options.ofList? o = (optionValues [] (o.elim [] (·.entries))).map (⟨·⟩)
  := by
  cases o <;> rfl

/-- The values of a payload, part by part. -/
theorem values_eq_ok :
  p.values = .ok v ↔ pathOf p.path = .ok v.path ∧
    PartitionSpec.ofPartition? p.partition = .ok v.partition ∧
    Options.ofList? p.options = .ok v.options
  := by
  obtain ⟨path, partition, options⟩ := v
  simp [values, bind_eq_ok_iff, pure, Except.pure]

/-- The fault of a payload is that of its first part that has one. -/
theorem values_eq_error_iff :
  p.values = .error e ↔ pathOf p.path = .error e ∨
    (∃ path, pathOf p.path = .ok path) ∧ (PartitionSpec.ofPartition? p.partition = .error e ∨
      (∃ spec, PartitionSpec.ofPartition? p.partition = .ok spec) ∧
        Options.ofList? p.options = .error e)
  := by
  simp [values, bind_eq_error_iff, pure, Except.pure]

theorem pathOf_eq_ok {c : Constant} {path : String} :
  pathOf c = .ok path ↔ c.value = .string path ∧ path ≠ ""
  := by
  obtain ⟨value, span⟩ := c
  cases value with
  | string s =>
      simp only [pathOf, Literal.string.injEq]
      split <;> grind
  | _ => simp [pathOf]

/-- The partition of a payload has its entries, with columns that differ in any case. -/
theorem partition_of_ofPartition? {o : Option Partition} {spec : Option PartitionSpec}
    (h : PartitionSpec.ofPartition? o = .ok spec) :
  spec.isSome = o.isSome ∧ partitionValues [] (o.elim [] (·.entries)) =
    .ok (spec.elim [] (·.entries))
  := by
  cases o with
  | none =>
      obtain rfl := Except.ok.inj h
      exact ⟨rfl, rfl⟩
  | some p =>
      obtain ⟨values, hvalues, rfl⟩ := map_eq_ok_iff.mp h
      exact ⟨rfl, hvalues⟩

/-- The options of a payload have its entries. -/
theorem options_of_ofList? {o : Option OptionList} {options : Options}
    (h : Options.ofList? o = .ok options) :
  optionValues [] (o.elim [] (·.entries)) = .ok options.entries
  := by
  cases o with
  | none =>
      obtain rfl := Except.ok.inj h
      rfl
  | some list =>
      obtain ⟨values, hvalues, rfl⟩ := map_eq_ok_iff.mp h
      exact hvalues

/-- Entries with different keys are told apart by them. -/
theorem gives_of_values (h : p.values = .ok v) :
  p.Gives v
  := by
  obtain ⟨hpath, hpartition, hoptions⟩ := values_eq_ok.mp h
  obtain ⟨hpath, hne⟩ := pathOf_eq_ok.mp hpath
  obtain ⟨hisSome, hpartition⟩ := partition_of_ofPartition? hpartition
  obtain ⟨hpartition, hcolumns⟩ := partitionValues_eq_ok hpartition
  obtain ⟨hoptions, hkeys⟩ := optionValues_eq_ok (options_of_ofList? hoptions)
  constructor
  case path => exact hpath
  case nonempty => exact hne
  case isSome_partition => exact hisSome
  case partition => exact hpartition
  case columns => exact hcolumns
  case options => exact hoptions
  case keys => exact hkeys
  case get?_partition =>
    intro spec hspec column d
    rw [Option.mem_def] at hspec
    rw [hspec] at hcolumns
    apply find?_eq_some_iff_of_nodup hcolumns
  case get?_options =>
    intro key value
    rw [Options.get?, Option.map_eq_some_iff]
    simp only [find?_eq_some_iff_of_nodup hkeys]
    constructor
    · rintro ⟨o, ⟨ho, rfl⟩, rfl⟩
      exact ho
    · intro ho
      exact ⟨_, ⟨ho, rfl⟩, rfl⟩

/-- Where the values of some entries have no fault, no entry offends. -/
theorem not_offendsAt_of_ok {α : Type} {P : Nat → Fault → Prop} {r : Except Fault α}
    (h : ∀ e, r = .error e ↔ ∃ i, FirstAt P i e) :
  (∃ a, r = .ok a) ↔ ∀ i e, ¬ P i e
  := by
  constructor
  · rintro ⟨a, rfl⟩ i e hP
    obtain ⟨j, f, hfirst⟩ := exists_firstAt hP
    have := (h f).mpr ⟨j, hfirst⟩
    contradiction
  · intro hP
    cases r with
    | ok a => exact ⟨a, rfl⟩
    | error e =>
        obtain ⟨i, hfirst⟩ := (h e).mp rfl
        exact (hP i e hfirst.1).elim

/-- A payload is refused for the reasons above and for no other. -/
theorem values_eq_error (hp : p.IsWritten) :
  p.values = .error e ↔ p.Refused e
  := by
  have hpath : ∀ f, pathOf p.path = .error f ↔
      p.path.value = .string "" ∧ f = ⟨.emptyPath, p.path.span⟩ := by
    intro f
    obtain ⟨path, hpath⟩ := hp.path
    simp only [pathOf, hpath, Literal.string.injEq]
    split <;> simp_all [eq_comm]
  have hpathOk : (∃ path, pathOf p.path = .ok path) ↔ p.path.value ≠ .string "" := by
    obtain ⟨path, hpath⟩ := hp.path
    simp [pathOf_eq_ok, hpath]
  have hpartition : ∀ f, PartitionSpec.ofPartition? p.partition = .error f ↔
      ∃ i, FirstAt (PartitionEntry.OffendsAt p.partitionEntries) i f := by
    intro f
    rw [← partitionValues_eq_error hp.partition, ofPartition?_eq, partitionEntries]
    cases partitionValues [] (p.partition.elim [] (·.entries)) <;> simp [Except.map]
  have hoptions : ∀ f, Options.ofList? p.options = .error f ↔
      ∃ i, FirstAt (OptionEntry.OffendsAt p.optionEntries) i f := by
    intro f
    rw [← optionValues_eq_error hp.options, ofList?_eq, optionEntries]
    cases optionValues [] (p.options.elim [] (·.entries)) <;> simp [Except.map]
  rw [values_eq_error_iff, hpath, hpathOk, hpartition, hoptions, not_offendsAt_of_ok hpartition]
  constructor
  · rintro (⟨hempty, rfl⟩ | ⟨hne, ⟨i, hfirst⟩ | ⟨hnone, i, hfirst⟩⟩)
    · exact .path hempty
    · exact .partition hne hfirst
    · exact .options hne hnone hfirst
  · rintro (hempty | ⟨hne, hfirst⟩ | ⟨hne, hnone, hfirst⟩)
    · exact .inl ⟨hempty, rfl⟩
    · exact .inr ⟨hne, .inl ⟨_, hfirst⟩⟩
    · exact .inr ⟨hne, .inr ⟨hnone, _, hfirst⟩⟩

/-- The reasons for which payloads are refused are faults of the grammar. -/
theorem Refused.kind_eq (h : p.Refused e) :
  e.cause.kind = .grammar
  := by
  have hliteral : ∀ {l : Literal} {cause : Cause}, l.Refused cause → cause.kind = .grammar := by
    rintro l cause ⟨hrefuses⟩
    cases hrefuses <;> rfl
  cases h with
  | path => rfl
  | partition _ isFirst =>
      obtain ⟨d, -, ⟨-, rfl⟩ | ⟨-, c, cause, -, hrefused, rfl⟩⟩ := isFirst.1
      · rfl
      · exact hliteral hrefused
  | options _ _ isFirst =>
      obtain ⟨d, -, ⟨-, rfl⟩ | ⟨-, cause, hrefused, rfl⟩⟩ := isFirst.1
      · rfl
      · exact hliteral hrefused

/-- A payload is refused exactly if something of it is at fault. -/
theorem exists_refused_iff :
  (∃ e, p.Refused e) ↔ p.path.value = .string "" ∨
    (∃ i e, PartitionEntry.OffendsAt p.partitionEntries i e) ∨
    ∃ i e, OptionEntry.OffendsAt p.optionEntries i e
  := by
  constructor
  · rintro ⟨e, isEmpty | ⟨-, isFirst⟩ | ⟨-, -, isFirst⟩⟩
    · exact .inl isEmpty
    · exact .inr (.inl ⟨_, _, isFirst.1⟩)
    · exact .inr (.inr ⟨_, _, isFirst.1⟩)
  · intro h
    by_cases hpath : p.path.value = .string ""
    · exact ⟨_, .path hpath⟩
    by_cases hpartition : ∃ i e, PartitionEntry.OffendsAt p.partitionEntries i e
    · obtain ⟨i, e, hoffends⟩ := hpartition
      obtain ⟨j, f, hfirst⟩ := exists_firstAt hoffends
      exact ⟨f, .partition hpath hfirst⟩
    · obtain ⟨i, e, hoffends⟩ := (h.resolve_left hpath).resolve_left hpartition
      obtain ⟨j, f, hfirst⟩ := exists_firstAt hoffends
      exact ⟨f, .options hpath (fun i e h => hpartition ⟨i, e, h⟩) hfirst⟩

end Payload

/-! ### Texts -/

/-- The payload of the command of a load. -/
def LoadCommand.payload (command : LoadCommand) : Payload.Values :=
  ⟨command.path, command.partition, command.options⟩

/-- The payload of the command of an export, which has no partition. -/
def ExportCommand.payload (command : ExportCommand) : Payload.Values :=
  ⟨command.path, none, command.options⟩

/-- The payload of the command of a load is made of that of the load. -/
theorem LoadCommand.map_payload_ofLoad (l : Load) :
  (LoadCommand.ofLoad l).map LoadCommand.payload = l.payload.values
  := by
  unfold ofLoad Payload.values Load.payload
  cases pathOf l.path with
  | error e => rfl
  | ok path =>
      cases PartitionSpec.ofPartition? l.partition with
      | error e => rfl
      | ok partition => cases Options.ofList? l.options <;> rfl

/-- The payload of the command of an export is made of that of the export. -/
theorem ExportCommand.map_payload_ofExport (e : Export) :
  (ExportCommand.ofExport e).map ExportCommand.payload = e.payload.values
  := by
  unfold ofExport Payload.values Export.payload
  cases pathOf e.path with
  | error f => rfl
  | ok path => cases Options.ofList? e.options <;> rfl

theorem Command.ofNode_eq_error {s : Statement} {p : Payload} (hp : s.payload? = some p)
    {e : Fault} :
  ofNode (.statement s) = .error e ↔ p.values = .error e
  := by
  cases s with
  | load l =>
      obtain rfl := Option.some.inj hp
      rw [← LoadCommand.map_payload_ofLoad, ofNode]
      cases LoadCommand.ofLoad l <;> simp [Except.map]
  | exportRows d =>
      obtain rfl := Option.some.inj hp
      rw [← ExportCommand.map_payload_ofExport, ofNode]
      cases ExportCommand.ofExport d <;> simp [Except.map]
  | _ => contradiction

/-- **Payloads are faithful and unambiguous.**  The path, the partition and the options of a load or
an export are those of the statement, entry by entry, and every entry is found by its column or key.
And the statement is refused because of its path, if that is empty, or because of the first entry
that repeats an earlier one or has no value, those of the partition before the options, and for no
other reason. -/
theorem parseCommand_payload (text : String) :
  (∀ command, parseCommand text = .ok (.load command) → ∃ l,
    parseStatement text = .ok (.statement (.load l)) ∧ l.payload.Gives command.payload) ∧
  (∀ command, parseCommand text = .ok (.exportRows command) → ∃ e,
    parseStatement text = .ok (.statement (.exportRows e)) ∧ e.payload.Gives command.payload) ∧
  ∀ s p, parseStatement text = .ok (.statement s) → s.payload? = some p →
    (∀ e, parseCommand text = .error e ↔ p.Refused e) ∧
    (∀ e, parseCommand text = .error e → e.cause.kind = .grammar) ∧
    ((∃ e, parseCommand text = .error e) ↔ p.path.value = .string "" ∨
      (∃ i e, PartitionEntry.OffendsAt p.partitionEntries i e) ∨
      ∃ i e, OptionEntry.OffendsAt p.optionEntries i e)
  := by
  refine ⟨?_, ?_, ?_⟩
  · intro command h
    obtain ⟨s, hs, hcommand⟩ := exists_statement_of_parseCommand h
    cases s with
    | load l =>
        refine ⟨l, hs, Payload.gives_of_values ?_⟩
        rw [← LoadCommand.map_payload_ofLoad]
        cases hl : LoadCommand.ofLoad l <;> simp_all [Command.ofNode, Except.map]
    | merge m => cases hm : MergeCommand.ofMerge m <;> simp_all [Command.ofNode, Except.map]
    | exportRows e => cases he : ExportCommand.ofExport e <;> simp_all [Command.ofNode, Except.map]
    | query | verbatim => simp [Command.ofNode] at hcommand
  · intro command h
    obtain ⟨s, hs, hcommand⟩ := exists_statement_of_parseCommand h
    cases s with
    | exportRows e =>
        refine ⟨e, hs, Payload.gives_of_values ?_⟩
        rw [← ExportCommand.map_payload_ofExport]
        cases he : ExportCommand.ofExport e <;> simp_all [Command.ofNode, Except.map]
    | merge m => cases hm : MergeCommand.ofMerge m <;> simp_all [Command.ofNode, Except.map]
    | load l => cases hl : LoadCommand.ofLoad l <;> simp_all [Command.ofNode, Except.map]
    | query | verbatim => simp [Command.ofNode] at hcommand
  · intro s p hs hp
    have hwritten := (ensured_of_parseStatement hs).payload p hp
    have hrefused : ∀ e, parseCommand text = .error e ↔ p.Refused e := by
      intro e
      rw [parseCommand_of_statement hs, Command.ofNode_eq_error hp, Payload.values_eq_error hwritten]
    refine ⟨hrefused, fun e h => ((hrefused e).mp h).kind_eq, ?_⟩
    simp only [hrefused]
    apply Payload.exists_refused_iff

/-- Columns that differ only in case are the same, and a number of the partition that is too large
is found before an option that repeats a key. -/
theorem parseCommand_payload_number :
  (∃ command, parseCommand "LOAD DATA INPATH 'p' INTO TABLE t OPTIONS (a 1, A 2)" =
    .ok (.load command) ∧ command.options.get? "A" = some (.int 2)) ∧
  ∃ l, parseStatement "LOAD DATA INPATH 'p' INTO TABLE t PARTITION (c = 300Y, C) OPTIONS (a 1, a 2)" =
    .ok (.statement (.load l)) ∧
    l.payload.Refused ⟨.numberOutOfRange "300Y" ⟨"tinyint", "-128", "127"⟩,
      ⟨⟨1, 49, 49⟩, ⟨1, 53, 53⟩⟩⟩
  := by
  constructor
  · have hentries : (parseCommand "LOAD DATA INPATH 'p' INTO TABLE t OPTIONS (a 1, A 2)").map
        (fun | .load command => some command.options.entries | _ => none) =
        .ok (some [("a", .int 1), ("A", .int 2)]) := by decide +kernel
    cases h : parseCommand "LOAD DATA INPATH 'p' INTO TABLE t OPTIONS (a 1, A 2)" with
    | error e => simp [h, Except.map] at hentries
    | ok c =>
        rw [h] at hentries
        cases c with
        | load command =>
            have hgives := (parseCommand_payload _).1 command h
            obtain ⟨l, -, hgives⟩ := hgives
            refine ⟨command, rfl, (hgives.get?_options "A" (.int 2)).mpr ?_⟩
            have hlist : command.options.entries = _ :=
              Option.some.inj (Except.ok.inj hentries)
            rw [LoadCommand.payload, hlist]
            simp
        | _ => simp [Except.map] at hentries
  · have hnode : (parseStatement
        "LOAD DATA INPATH 'p' INTO TABLE t PARTITION (c = 300Y, C) OPTIONS (a 1, a 2)").map
        (fun node => (node.label, (Command.ofNode node).map Command.name)) =
        .ok ("load", .error ⟨.numberOutOfRange "300Y" ⟨"tinyint", "-128", "127"⟩,
          ⟨⟨1, 49, 49⟩, ⟨1, 53, 53⟩⟩⟩) := by decide +kernel
    cases h : parseStatement
        "LOAD DATA INPATH 'p' INTO TABLE t PARTITION (c = 300Y, C) OPTIONS (a 1, a 2)" with
    | error e => simp [h, Except.map] at hnode
    | ok node =>
        rw [h] at hnode
        obtain ⟨hlabel, hfault⟩ := Prod.mk.inj (Except.ok.inj hnode)
        rcases node with (_ | l | _ | _ | _) | _
        case statement.load =>
          refine ⟨l, rfl, (((parseCommand_payload _).2.2 _ _ h rfl).1 _).mp ?_⟩
          rw [parseCommand_of_statement h]
          cases hc : Command.ofNode (.statement (.load l)) with
          | error e => simpa [hc, Except.map] using hfault
          | ok c => simp [hc, Except.map] at hfault
        all_goals simp [Node.label, Statement.label] at hlabel

end SqlFront
