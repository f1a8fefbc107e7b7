import SqlFront.Proofs.Commands.Loads
import SqlFront.Proofs.Printing.Dotted

/-!
# Texts of loads

`loadText path table` is the text of a load from a path into a table, both as they are written.
What command it is depends on the tokens of the two only (`parseCommand_loadText`), and where the
text of the table goes on with a number behind the words of a name, that name is all that can be
taken for the name of the table (`parts_of_parseCommand_loadText`).
-/

namespace SqlFront

open Cursor Grammar Token

/-- The text of a load, its path and its table as they are written. -/
def loadText (path table : String) : String :=
  "LOAD DATA INPATH " ++ path ++ " INTO TABLE " ++ table

/-- The words of a load, its path and its table as words. -/
def loadWords (path table : List String) : List String :=
  ["LOAD", "DATA", "INPATH"] ++ (path ++ (["INTO", "TABLE"] ++ table))

section

variable {path table : String} {texts words : List String} {more : List Char}

/-! ### The words of a load -/

/-- The words that every load is written with, and their kinds. -/
def loadSamples : List (String × Keyword) :=
  [("LOAD", .LOAD), ("DATA", .DATA), ("INPATH", .INPATH), ("INTO", .INTO), ("TABLE", .TABLE)]

theorem kindOf?_loadSample {word : String} {k : Keyword} (h : (word, k) ∈ loadSamples) :
  kindOf? word = some (.keyword k)
  := by
  have hall : ∀ sample ∈ loadSamples, (sample.1, .keyword sample.2) ∈ samples := by
    simp [loadSamples, samples]
  exact kindOf?_of_mem_samples (hall _ h)

theorem kindOf?_table :
  kindOf? "t" = some .identifier
  := kindOf?_of_mem_samples (by simp [samples])

theorem spells_loadText (hpath : ∀ more, Spells (path.toList ++ more) texts more)
    (htable : Spells table.toList words more) :
  Spells (loadText path table).toList (loadWords texts words) more
  := by
  have hopening : "LOAD DATA INPATH ".toList =
      ["LOAD", "DATA", "INPATH"].flatMap fun w => w.toList ++ [' '] := by decide
  have hmiddle : " INTO TABLE ".toList =
      ' ' :: ["INTO", "TABLE"].flatMap fun w => w.toList ++ [' '] := by decide
  have happend : ∀ v w : String, (v ++ path ++ w ++ table).toList =
      v.toList ++ (path.toList ++ (w.toList ++ table.toList)) := by
    intro v w
    simp
  have htext : (loadText path table).toList =
      "LOAD DATA INPATH ".toList ++ (path.toList ++ (" INTO TABLE ".toList ++ table.toList)) :=
    happend _ _
  have hfront : AreTokens ["LOAD", "DATA", "INPATH"] := areTokens_samples (by decide)
  have hback : AreTokens ["INTO", "TABLE"] := areTokens_samples (by decide)
  rw [htext, hopening, hmiddle, List.cons_append]
  have htail := (spells_blank (c := ' ') rfl _).trans ((spells_words hback _).trans htable)
  exact (spells_words hfront _).trans ((hpath _).trans htail)

/-! ### Tokens that are words -/

/-- The first of some tokens that are words is the first of the words. -/
theorem exists_of_forget_cons {w : String} {ts : List Token}
    (h : forget ts = (w :: words).map ofWord) :
  ∃ t us, ts = t :: us ∧ t.kind = (ofWord w).kind ∧ t.text = (ofWord w).text ∧
    forget us = words.map ofWord
  := by
  obtain ⟨t, us, rfl, ht, hus⟩ := List.map_eq_cons_iff.mp h
  have hkind : (forget t).kind = _ := congrArg Token.kind ht
  have htext : (forget t).text = _ := congrArg Token.text ht
  exact ⟨t, us, rfl, hkind, htext, hus⟩

theorem exists_of_forget_append {ts : List Token} (h : forget ts = (texts ++ words).map ofWord) :
  ∃ us vs, ts = us ++ vs ∧ forget us = texts.map ofWord ∧ forget vs = words.map ofWord
  := by
  rw [List.map_append] at h
  obtain ⟨us, vs, rfl, hus, hvs⟩ := List.map_eq_append_iff.mp h
  exact ⟨us, vs, rfl, hus, hvs⟩

/-- A token that is the word of a name stands for that name. -/
theorem exists_identRule {i : Ident} (hi : i.isWritable) {t : Token}
    (hkind : t.kind = (ofWord i.word).kind) (htext : t.text = (ofWord i.word).text) :
  ∃ j, IdentRule j [t] ∧ j.value = i.value ∧ j.quoted = i.quoted
  := by
  obtain ⟨kind, hword, hname, hvalue, hquoted⟩ := Ident.ofWord_word hi
  rw [kind_ofWord hword] at hkind
  rw [← hkind] at hname hquoted
  refine ⟨_, .intro hname, htext.trans hvalue, ?_⟩
  rw [Bool.eq_iff_iff, decide_eq_true_iff, hquoted]

/-- Tokens that are the words of joined names are the tokens of names that are the same. -/
theorem separated_of_forget {name : QualifiedName} (hname : name.isWritable) {ts : List Token}
    (h : forget ts = name.words.map ofWord) :
  ∃ parts, Separated .dot IdentRule parts ts ∧
    ∀ a, (Table.ofName ⟨parts, a⟩).parts = (Table.ofName name).parts
  := by
  have hparts := Ident.isWritable_of_mem hname
  obtain ⟨_ | ⟨i, is⟩, span⟩ := name
  · contradiction
  rw [QualifiedName.words_cons] at h
  clear hname
  induction is generalizing i ts with
  | nil =>
      obtain ⟨t, us, rfl, hkind, htext, hus⟩ := exists_of_forget_cons h
      obtain rfl : us = [] := List.map_eq_nil_iff.mp hus
      obtain ⟨j, hj, hvalue, hquoted⟩ := exists_identRule (hparts i (by simp)) hkind htext
      refine ⟨[j], .one hj, fun a => ?_⟩
      simp [Table.ofName, hvalue, hquoted]
  | cons k ks ih =>
      rw [List.forall_mem_cons] at hparts
      obtain ⟨t, us, rfl, hkind, htext, hus⟩ := exists_of_forget_cons h
      rw [List.flatMap_cons, List.cons_append, List.singleton_append] at hus
      obtain ⟨dot, vs, rfl, hdot, -, hvs⟩ := exists_of_forget_cons hus
      obtain ⟨j, hj, hvalue, hquoted⟩ := exists_identRule hparts.1 hkind htext
      obtain ⟨js, hjs, hsame⟩ := ih k hvs hparts.2
      rw [kind_ofWord kindOf?_dot] at hdot
      refine ⟨j :: js, .more hj hdot hjs, fun a => ?_⟩
      have hbehind := hsame a
      simp only [Table.ofName, List.map_cons, List.cons.injEq, NamePart.mk.injEq] at hbehind ⊢
      exact ⟨⟨hvalue, hquoted⟩, hbehind⟩

/-- Tokens that are string literals are texts. -/
theorem kind_of_forget_strings (hstrings : ∀ w ∈ texts, kindOf? w = some .string) {ts : List Token}
    (h : forget ts = texts.map ofWord) :
  (∀ t ∈ ts, t.kind = .string) ∧ ts.map (·.text) = texts
  := by
  induction texts generalizing ts with
  | nil =>
      obtain rfl : ts = [] := List.map_eq_nil_iff.mp h
      simp
  | cons w ws ih =>
      rw [List.forall_mem_cons] at hstrings
      obtain ⟨t, us, rfl, hkind, htext, hus⟩ := exists_of_forget_cons h
      rw [kind_ofWord hstrings.1] at hkind
      rw [text_ofWord hstrings.1 (by decide)] at htext
      obtain ⟨hkinds, htexts⟩ := ih hstrings.2 hus
      exact ⟨List.forall_mem_cons.mpr ⟨hkind, hkinds⟩, by rw [List.map_cons, htext, htexts]⟩

/-- Tokens that are the words of a load are a load. -/
theorem plainLoad_of_forget {name : QualifiedName} (hname : name.isWritable) (hne : texts ≠ [])
    (hstrings : ∀ w ∈ texts, kindOf? w = some .string) {ts : List Token}
    (h : forget ts = (loadWords texts name.words).map ofWord) :
  ∃ paths parts, PlainLoad paths parts ts ∧
    joined paths = String.join (texts.map Text.unescape) ∧
    ∀ a, (Table.ofName ⟨parts, a⟩).parts = (Table.ofName name).parts
  := by
  have hword : ∀ {t : Token} {word : String} {k : Keyword}, (word, k) ∈ loadSamples →
      t.kind = (ofWord word).kind → t.kind = .keyword k := by
    intro t word k hmem ht
    rw [ht, kind_ofWord (kindOf?_loadSample hmem)]
  change forget ts = ("LOAD" :: "DATA" :: "INPATH" ::
    (texts ++ "INTO" :: "TABLE" :: name.words)).map ofWord at h
  obtain ⟨load, ts, rfl, hload, -, h⟩ := exists_of_forget_cons h
  obtain ⟨data, ts, rfl, hdata, -, h⟩ := exists_of_forget_cons h
  obtain ⟨inpath, ts, rfl, hinpath, -, h⟩ := exists_of_forget_cons h
  obtain ⟨paths, ts, rfl, hpaths, h⟩ := exists_of_forget_append h
  obtain ⟨into, ts, rfl, hinto, -, h⟩ := exists_of_forget_cons h
  obtain ⟨table, ts, rfl, htable, -, h⟩ := exists_of_forget_cons h
  obtain ⟨hkinds, htexts⟩ := kind_of_forget_strings hstrings hpaths
  obtain ⟨parts, hparts, hsame⟩ := separated_of_forget hname h
  refine ⟨paths, parts, .intro (hword ?_ hload) (hword ?_ hdata) (hword ?_ hinpath) ?_ hkinds
    (hword ?_ hinto) (hword ?_ htable) hparts, ?_, hsame⟩
  iterate 3 · simp [loadSamples]
  · rintro rfl
    exact hne htexts.symm
  iterate 2 · simp [loadSamples]
  · rw [joined, ← htexts, List.map_map]
    rfl

/-! ### Commands -/

/-- A load into a table with a name that its text spells is the command for it. -/
theorem parseCommand_loadText {name : QualifiedName} (hname : name.isWritable) (hne : texts ≠ [])
    (hstrings : ∀ w ∈ texts, kindOf? w = some .string)
    (hpath : ∀ more, Spells (path.toList ++ more) texts more)
    (htable : Spells table.toList name.words [])
    (hempty : String.join (texts.map Text.unescape) ≠ "") :
  ∃ t : Table, t.parts = (Table.ofName name).parts ∧
    parseCommand (loadText path table) =
      .ok (.load (.plain (String.join (texts.map Text.unescape)) t))
  := by
  obtain ⟨p, hwords, hstop⟩ := Tape.tokens_of_spells_nil (spells_loadText hpath htable)
  obtain ⟨paths, parts, hload, hjoined, hsame⟩ := plainLoad_of_forget hname hne hstrings hwords
  have hnext : (⟨[], (Tape.ofString (loadText path table)).stop, default⟩ : Tape).peek 0 =
      .ok (.eof p) := by
    rw [hstop]
    rfl
  obtain ⟨span, -, hcommand⟩ := parseCommand_plainLoad (List.append_nil _).symm hload hnext
    (by simp [EndsLoad, Token.eof])
  rw [← hjoined] at hempty ⊢
  exact ⟨_, hsame span, hcommand rfl hempty⟩

/-- Where a number follows the words of a name, a load can only be one into the table of that
name. -/
theorem parts_of_parseCommand_loadText {front : QualifiedName} (hfront : front.isWritable)
    (hne : texts ≠ []) (hstrings : ∀ w ∈ texts, kindOf? w = some .string)
    (hpath : ∀ more, Spells (path.toList ++ more) texts more) {c : Char}
    (htable : Spells table.toList front.words (c :: more)) {form : NumberForm} {n : Nat}
    (hnumber : measure c more = .ok (.number form, n)) {l : LoadCommand}
    (hl : parseCommand (loadText path table) = .ok (.load l)) :
  l.table.parts = (Table.ofName front).parts
  := by
  obtain ⟨ts, q, hwords, htokens, -⟩ := Tape.tokens_of_spells (spells_loadText hpath htable)
  obtain ⟨paths, parts, hload, -, hsame⟩ := plainLoad_of_forget hfront hne hstrings hwords
  have hvisible := visible_of_next (List.cons_ne_nil c more) (next_of_measure q hnumber)
  rw [if_neg (by simp [Kind.isHidden])] at hvisible
  rw [hvisible] at htokens
  obtain ⟨span, hcommand, -⟩ := parseCommand_plainLoad htokens hload rfl (by
    simp [EndsLoad])
  obtain rfl := Command.load.inj (hcommand _ hl)
  exact hsame span

end

end SqlFront
