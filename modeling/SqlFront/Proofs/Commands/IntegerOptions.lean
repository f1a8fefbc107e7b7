import SqlFront.Proofs.Commands.Integers
import SqlFront.Proofs.Commands.LoadTexts
import SqlFront.Proofs.Commands.Payloads
import SqlFront.Proofs.Printing.Texts

/-!
# Options with integers

`IntegerOption.loadText` is the text of a load with options that have integers for their values.  It
is read as the load with these options (`IntegerOption.parseStatement_loadText`), and what the
integers stand for is what the command has for the keys (`IntegerOption.parseCommand_loadText`).
-/

namespace SqlFront

open Cursor Grammar Match Production Token

/-! ### Options -/

/-- An option that has an integer for its value. -/
structure IntegerOption where
  key : Ident
  integer : WrittenInteger
  isKey : key.isWritable

namespace IntegerOption

/-- The key and the integer, with a blank between them. -/
def text (o : IntegerOption) : String := o.key.word ++ " " ++ o.integer.text

/-- The words that an option is written with. -/
def words (o : IntegerOption) : List String := o.key.word :: o.integer.words

/-- The entry that an option is read as, with positions forgotten. -/
def entry (o : IntegerOption) : OptionEntry :=
  ⟨o.key.value, .point .start, ⟨.number o.integer.form o.integer.text, .point .start⟩,
    .point .start⟩

/-- The options with commas between them. -/
def textOf (os : List IntegerOption) : String := ", ".intercalate (os.map text)

/-- The words of options, the first of them and the others. -/
def wordsOf (o : IntegerOption) (os : List IntegerOption) : List String :=
  o.words ++ os.flatMap fun o => "," :: o.words

variable {o : IntegerOption} {os : List IntegerOption} {more : List Char} {rest : List String}
  {bound : Nat}

theorem spells_text (o : IntegerOption) (hmore : Ends more) :
  Spells (o.text.toList ++ more) o.words more
  := by
  obtain ⟨kind, hkind, -⟩ := Ident.ofWord_word o.isKey
  have htext : o.text.toList ++ more =
      o.key.word.toList ++ ' ' :: (o.integer.text.toList ++ more) := by
    simp [text]
  rw [htext]
  exact (spells_word hkind _).cons (o.integer.spells_text hmore)

theorem spells_comma (more : List Char) :
  Spells (',' :: ' ' :: more) [","] more
  := by
  have hlist : ",".toList = [','] := rfl
  have hcomma : Spells (",".toList ++ ' ' :: more) [","] (' ' :: more) :=
    spells_of_measure hlist kindOf?_comma rfl
  exact hcomma.trans (spells_blank rfl more)

/-- Options are spelled as their words, up to the parenthesis behind them. -/
theorem spells_textOf (o : IntegerOption) (os : List IntegerOption) (more : List Char) :
  Spells ((textOf (o :: os)).toList ++ ')' :: more) (wordsOf o os) (')' :: more)
  := by
  have hends : ∀ {c : Char} {more : List Char}, isTokenChar c = false →
      Ends (c :: more) := by
    rintro c more hc d ⟨⟩
    exact hc
  induction os generalizing o with
  | nil => simpa [textOf, wordsOf] using o.spells_text (hends rfl)
  | cons p os ih =>
      have htext : (textOf (o :: p :: os)).toList ++ ')' :: more =
          o.text.toList ++ ',' :: ' ' :: ((textOf (p :: os)).toList ++ ')' :: more) := by
        simp [textOf, String.intercalate_cons_cons]
      rw [htext]
      exact (o.spells_text (hends rfl)).trans ((spells_comma _).cons (ih p))

/-! ### Reading options -/

theorem leading_words (w : WrittenInteger) (rest : List String) :
  leading (w.words ++ rest) = .minus ∨ leading (w.words ++ rest) = .number w.form
  := by
  rw [WrittenInteger.words]
  split
  · exact .inl (leading_cons WrittenInteger.kindOf?_minus _)
  · exact .inr (leading_cons w.kindOf?_word _)

/-- An integer is read as a number of its form, with its sign. -/
theorem reads_literal_integer (w : WrittenInteger) (rest : List String) :
  (literal bound).Reads (.ofWords (w.words ++ rest)) (.number w.form w.text) (.ofWords rest)
  := by
  have hword := w.kindOf?_word
  have htext := text_ofWord hword (by simp)
  rw [WrittenInteger.words]
  cases hminus : w.minus with
  | false =>
      have hown : w.text = w.word := by
        simp [WrittenInteger.text, WrittenInteger.sign, WrittenInteger.word, hminus]
      rw [if_neg Bool.false_ne_true]
      apply (reads_peek_word _ _).bind
      rw [kind_ofWord hword, htext, ← hown]
      apply (reads_advance_word _ _).bind
      apply reads_done_self
  | true =>
      have hown : w.text = "-" ++ w.word := by
        apply String.toList_inj.mp
        simp [WrittenInteger.text, WrittenInteger.sign, WrittenInteger.word, hminus]
      rw [if_pos rfl]
      apply (reads_peek_word _ _).bind
      rw [kind_ofWord WrittenInteger.kindOf?_minus]
      obtain ⟨t, hpeek, hkind⟩ := reads_second_words "-" (w.word :: rest)
      rw [leading_cons hword] at hkind
      apply hpeek.bind
      simp only [hkind]
      apply (reads_advance_word _ _).bind
      apply (reads_advance_word _ _).bind
      rw [htext, ← hown]
      apply reads_done_self

theorem reads_optionEntry_words (o : IntegerOption) (hbound : 1 ≤ bound) (rest : List String) :
  (optionEntry bound).Reads (.ofWords (o.words ++ rest)) o.entry (.ofWords rest)
  := by
  obtain ⟨kind, hkind, hname, -⟩ := Ident.ofWord_word o.isKey
  have hstop : leading (o.integer.words ++ rest) ≠ .dot ∧
      leading (o.integer.words ++ rest) ≠ .eq := by
    rcases leading_words o.integer rest with h | h <;> simp [h]
  have hkey : (optionKey bound).Reads (.ofWords (o.key.word :: (o.integer.words ++ rest)))
      o.key.value (.ofWords (o.integer.words ++ rest)) := by
    have hnot : (accept? .string).Reads (.ofWords (o.key.word :: (o.integer.words ++ rest))) none
        (.ofWords (o.key.word :: (o.integer.words ++ rest))) := by
      apply (reads_accept? (by decide)).mpr
      refine .inr ⟨rfl, rfl, ofWord o.key.word, rfl, ?_⟩
      rw [kind_ofWord hkind]
      rintro rfl
      contradiction
    have hwritable : QualifiedName.isWritable ⟨[o.key], default⟩ := by
      simpa [QualifiedName.isWritable] using o.isKey
    have hname := reads_qualifiedName_words hwritable hbound (reads_dottedIdent_not hstop.1)
    apply hnot.bind
    apply hname.bind
    apply reads_done_self
  apply (reads_here_words _).bind
  apply hkey.bind
  apply (reads_spanFrom_words _).bind
  apply (reads_accept_not (by decide) hstop.2).bind
  apply Reads.bind
  · apply (reads_here_words _).bind
    apply (reads_literal_integer o.integer rest).bind
    apply (reads_spanFrom_words _).bind
    apply reads_done_self
  · apply (reads_spanFrom_words _).bind
    apply reads_done_self

end IntegerOption

/-! ### Loads with options -/

namespace IntegerOption

variable {o : IntegerOption} {os : List IntegerOption} {bound : Nat}

/-- The text of a load with options. -/
def loadText (os : List IntegerOption) : String :=
  SqlFront.loadText "'p'" ("t OPTIONS (" ++ textOf os ++ ")")

/-- The load that the text is read as, with positions forgotten. -/
def load (os : List IntegerOption) : Load :=
  ⟨⟨.string "p", .point .start⟩, false, false, ⟨[⟨"t", false, .point .start⟩], .point .start⟩,
    none, some ⟨os.map entry, .point .start⟩, .point .start⟩

/-- What the options stand for, or why the first is refused that is. -/
def given (os : List IntegerOption) : Except Cause (List (String × Value)) :=
  os.mapM fun o => o.integer.meaning.map (o.key.value, ·)

/-- The words behind the path of a load. -/
def tableWords (o : IntegerOption) (os : List IntegerOption) : List String :=
  "t" :: "OPTIONS" :: "(" :: (wordsOf o os ++ [")"])

theorem kindOf?_options :
  kindOf? "OPTIONS" = some (.keyword .OPTIONS)
  := kindOf?_of_mem_samples (by simp [samples])

theorem spells_loadText (o : IntegerOption) (os : List IntegerOption) :
  Spells (loadText (o :: os)).toList (loadWords ["'p'"] (tableWords o os)) []
  := by
  have hpath : ∀ more, Spells ("'p'".toList ++ more) ["'p'"] more :=
    spells_literal (q := '\x27') rfl "p"
  have hopens : "(".toList = ['('] := rfl
  have hparen : ∀ more, Spells ("(".toList ++ more) ["("] more := fun more =>
    spells_of_measure hopens kindOf?_leftParen rfl
  have hlist : ("t OPTIONS (" ++ textOf (o :: os) ++ ")").toList =
      "t".toList ++ ' ' :: ("OPTIONS".toList ++ ' ' :: ('(' ::
        ((textOf (o :: os)).toList ++ [')']))) := by
    simp
  apply SqlFront.spells_loadText hpath
  rw [hlist]
  apply (spells_word kindOf?_table _).cons
  apply (spells_word kindOf?_options _).cons
  apply (hparen _).cons
  exact (spells_textOf o os []).trans (spells_last kindOf?_rightParen)

theorem reads_options?_words (hbound : os.length < bound) (hpos : 1 ≤ bound) :
  (options? bound).Reads (.ofWords ("OPTIONS" :: "(" :: (wordsOf o os ++ [")"])))
    (some ⟨(o :: os).map entry, .point .start⟩) (.ofWords [])
  := by
  apply reads_afterToken?_word kindOf?_options
  apply (reads_here_words _).bind
  apply (reads_expect_word kindOf?_leftParen _).bind
  rw [wordsOf, List.append_assoc]
  apply Reads.bind
  · apply reads_commaList_words words entry hbound _ (leading_cons kindOf?_rightParen [])
    intro y _ rest _
    exact y.reads_optionEntry_words hpos rest
  · apply (reads_expect_word kindOf?_rightParen _).bind
    apply (reads_spanFrom_words _).bind
    apply reads_done_self

theorem reads_load_words (hbound : os.length + 1 < bound) :
  (Grammar.load bound).Reads (.ofWords (loadWords ["'p'"] (tableWords o os)))
    (load (o :: os)) (.ofWords [])
  := by
  have hnot : ∀ {word : String} {k l : Keyword} (words : List String), (word, k) ∈ loadSamples →
      k ≠ l → leading (word :: words) ≠ .keyword l := by
    intro word k l words hword hne
    rw [leading_cons (kindOf?_loadSample hword)]
    simpa using hne
  have htable := QualifiedName.isWritable_of_identifier kindOf?_table default default
  have hoptions := leading_cons kindOf?_options ("(" :: (wordsOf o os ++ [")"]))
  have hinto : leading ("INTO" :: "TABLE" :: tableWords o os) = .keyword .INTO :=
    leading_cons (kindOf?_loadSample (by simp [loadSamples])) _
  change (Grammar.load bound).Reads
    (.ofWords ("LOAD" :: "DATA" :: "INPATH" :: "'p'" :: "INTO" :: "TABLE" :: tableWords o os)) _ _
  apply (reads_here_words _).bind
  apply (reads_expect_word (kindOf?_loadSample (by simp [loadSamples])) _).bind
  apply (reads_expect_word (kindOf?_loadSample (by simp [loadSamples])) _).bind
  apply (reads_accept_not (by decide) (hnot (k := .INPATH) _ (by simp [loadSamples])
    (by decide))).bind
  apply (reads_expect_word (kindOf?_loadSample (by simp [loadSamples])) _).bind
  apply (reads_textConstant_word "p" (by omega) (by simp [hinto])).bind
  apply (reads_accept_not (by decide) (by simp [hinto])).bind
  apply (reads_expect_word (kindOf?_loadSample (by simp [loadSamples])) _).bind
  apply (reads_expect_word (kindOf?_loadSample (by simp [loadSamples])) _).bind
  apply (reads_qualifiedName_words htable (by simp [QualifiedName.words]; omega)
    (reads_dottedIdent_not (by rw [hoptions]; decide))).bind
  apply Reads.bind
  · apply (reads_here_words _).bind
    exact reads_afterToken?_not (by decide) (by rw [hoptions]; decide)
  apply (reads_options?_words (by omega) (by omega)).bind
  apply (reads_spanFrom_words _).bind
  apply reads_done_self

/-- The load is read from its text, up to positions. -/
theorem parseStatement_loadText (o : IntegerOption) (os : List IntegerOption) :
  ∃ l, parseStatement (loadText (o :: os)) = .ok (.statement (.load l)) ∧ forget l = load (o :: os)
  := by
  have hlength : os.length + 1 ≤ (loadWords ["'p'"] (tableWords o os)).length := by
    have hle := length_le_flatMap (fun o : IntegerOption => "," :: o.words) (by simp) os
    simp only [loadWords, tableWords, wordsOf, List.length_append, List.length_cons]
    omega
  have hread : ∀ bound, (loadWords ["'p'"] (tableWords o os)).length < bound →
      (soleStatement (.outermost bound)).Reads (.ofWords (loadWords ["'p'"] (tableWords o os)))
        (.statement (.load (load (o :: os)))) (.ofWords []) := by
    intro bound hbound
    apply reads_soleStatement_words
    apply (reads_peek_word _ _).bind
    rw [kind_ofWord (kindOf?_loadSample (k := .LOAD) (by simp [loadSamples]))]
    apply (reads_load_words (Nat.lt_of_le_of_lt hlength hbound)).bind
    apply reads_done_self
  obtain ⟨s, hs, hforget⟩ := ReadsAs.of_words (Tape.forget_of_spells (spells_loadText o os)) hread
  cases s with
  | load l => exact ⟨l, hs, Statement.load.inj hforget⟩
  | merge _ | exportRows _ | query _ | verbatim _ => contradiction

/-- The entries of a load that is the one above, up to positions. -/
theorem entries_of_forget {l : Load} (h : forget l = load os) :
  l.path.value = .string "p" ∧ l.partition = none ∧ ∃ list, l.options = some list ∧
    List.Forall₂ (fun (e : OptionEntry) (o : IntegerOption) => e.key = o.key.value ∧
      e.value.value = .number o.integer.form o.integer.text) list.entries os
  := by
  obtain ⟨path, isLocal, overwrite, table, partition, options, span⟩ := l
  have hpath : (forget path).value = .string "p" := congrArg (·.path.value) h
  have hpartition : forget partition = none := congrArg Load.partition h
  have hoptions : forget options = some ⟨os.map entry, .point .start⟩ := congrArg Load.options h
  refine ⟨hpath, Option.map_eq_none_iff.mp hpartition, ?_⟩
  obtain ⟨list, rfl, hlist⟩ := Option.map_eq_some_iff.mp hoptions
  have hentries : list.entries.map forget = os.map entry := congrArg OptionList.entries hlist
  refine ⟨list, rfl, ?_⟩
  rw [← List.forall₂_eq_eq_eq, List.forall₂_map_left_iff, List.forall₂_map_right_iff] at hentries
  apply hentries.imp
  intro e o heq
  have hkey : (forget e).key = o.key.value := congrArg OptionEntry.key heq
  have hvalue : (forget e).value.value = .number o.integer.form o.integer.text :=
    congrArg (·.value.value) heq
  exact ⟨hkey, hvalue⟩

variable {seen : List String} {es : List OptionEntry}

/-- Options with different keys have the values that their integers stand for. -/
theorem optionValues_eq_given
    (hentries : List.Forall₂ (fun (e : OptionEntry) (o : IntegerOption) => e.key = o.key.value ∧
      e.value.value = .number o.integer.form o.integer.text) es os)
    (hkeys : (os.map (·.key.value)).Nodup) (hseen : ∀ o ∈ os, o.key.value ∉ seen) :
  (optionValues seen es).mapError (·.cause) = given os
  := by
  induction hentries generalizing seen with
  | nil => rfl
  | @cons e o es os hentry hrest ih =>
      obtain ⟨hkey, hvalue⟩ := hentry
      rw [List.map_cons, List.nodup_cons] at hkeys
      rw [List.forall_mem_cons] at hseen
      have hfresh : ∀ p ∈ os, p.key.value ∉ o.key.value :: seen := by
        intro p hp hmem
        rcases List.mem_cons.mp hmem with heq | hmem
        · exact hkeys.1 (heq ▸ List.mem_map_of_mem hp)
        · exact hseen.2 p hp hmem
      have hbehind := ih hkeys.2 hfresh
      have hconstant : Value.ofConstant e.value =
          o.integer.meaning.mapError (⟨·, e.value.span⟩) := by
        rw [Value.ofConstant, hvalue, Value.ofLiteral, o.integer.ofNumber_text]
      rw [optionValues, hkey, if_neg hseen.1, hconstant, given, List.mapM_cons, ← given, ← hbehind]
      cases o.integer.meaning with
      | error cause => rfl
      | ok value => cases optionValues (o.key.value :: seen) es <;> rfl

/-- Options are refused for a fault of the grammar. -/
theorem kind_of_given {cause : Cause} (h : given os = .error cause) :
  cause.kind = .grammar
  := by
  induction os with
  | nil => contradiction
  | cons o os ih =>
      rw [given, List.mapM_cons, ← given] at h
      cases hmeaning : o.integer.meaning with
      | error cause' =>
          rw [hmeaning] at h
          obtain rfl : cause' = cause := Except.error.inj h
          exact WrittenInteger.kind_of_meaning hmeaning
      | ok value =>
          rw [hmeaning] at h
          cases hos : given os with
          | error cause' =>
              rw [hos] at h
              obtain rfl : cause' = cause := Except.error.inj h
              exact ih hos
          | ok values =>
              rw [hos] at h
              contradiction

/-- The load with the options is a command with the values that they stand for, or it is refused
where the first of them is. -/
structure Kept (os : List IntegerOption) : Prop where
  values : ∀ vs, given os = .ok vs → ∃ command,
    parseCommand (loadText os) = .ok (.load command) ∧ command.options.entries = vs
  refused : ∀ cause, given os = .error cause →
    cause.kind = .grammar ∧ ∃ span, parseCommand (loadText os) = .error ⟨cause, span⟩

theorem kept (o : IntegerOption) (os : List IntegerOption)
    (hkeys : ((o :: os).map (·.key.value)).Nodup) :
  Kept (o :: os)
  := by
  obtain ⟨l, hl, hforget⟩ := parseStatement_loadText o os
  obtain ⟨hpath, hpartition, list, hoptions, hentries⟩ := entries_of_forget hforget
  have hfresh : ∀ p ∈ o :: os, p.key.value ∉ ([] : List String) := by simp
  have hgiven := optionValues_eq_given hentries hkeys hfresh
  have hcommand : parseCommand (loadText (o :: os)) = (optionValues [] list.entries).map fun values =>
      .load ⟨"p", l.isLocal, l.overwrite, .ofName l.table, none, ⟨values⟩⟩ := by
    have hpathOf : pathOf l.path = .ok "p" := by
      simp [pathOf, hpath]
    rw [parseCommand_of_statement hl, Command.ofNode, LoadCommand.ofLoad, hpathOf, hpartition,
      hoptions, Options.ofList?]
    cases optionValues [] list.entries <;> rfl
  cases hvalues : optionValues [] list.entries with
  | error e =>
      rw [hvalues] at hgiven hcommand
      constructor
      case values =>
        rintro vs hvs
        rw [← hgiven] at hvs
        contradiction
      case refused =>
        intro cause hcause
        refine ⟨kind_of_given hcause, e.span, ?_⟩
        obtain rfl := Except.error.inj (hgiven.trans hcause)
        exact hcommand
  | ok values =>
      rw [hvalues] at hgiven hcommand
      constructor
      case values =>
        rintro vs hvs
        obtain rfl := Except.ok.inj (hgiven.trans hvs)
        exact ⟨_, hcommand, rfl⟩
      case refused =>
        intro cause hcause
        rw [← hgiven] at hcause
        contradiction

end IntegerOption

/-- **Integers keep their value.**  The numbers among the constants of a load or an export agree with
how they are written; and whatever integers are written as options, a load with these options is a
command with the values that they stand for, or is refused where the first of them is. -/
theorem integers_keep_value :
  (∀ text s p, parseStatement text = .ok (.statement s) → s.payload? = some p →
    (∀ e ∈ p.optionEntries, e.value.Agrees) ∧ ∀ e ∈ p.partitionEntries, ∀ c ∈ e.value, c.Agrees) ∧
  ∀ o os, ((o :: os).map fun o : IntegerOption => o.key.value).Nodup → IntegerOption.Kept (o :: os)
  := by
  constructor
  · intro text s p hs hp
    have hwritten := (ensured_of_parseStatement hs).payload p hp
    exact ⟨fun e he => Constant.agrees (hwritten.options e he),
      fun e he c hc => Constant.agrees (hwritten.partition e he c hc)⟩
  · exact IntegerOption.kept

/-- The least number of a byte, and a byte length with leading zeros. -/
theorem integers_keep_value_least :
  (∃ command, parseCommand "LOAD DATA INPATH 'p' INTO TABLE t OPTIONS (a -128y, b 0064K)" =
    .ok (.load command) ∧ command.options.entries = [("a", .byte (-128)), ("b", .byteLength 65536)]) ∧
  ∃ l, parseStatement "LOAD DATA INPATH 'p' INTO TABLE t OPTIONS (a -128y, b 0064K)" =
    .ok (.statement (.load l)) ∧ ∀ e ∈ l.payload.optionEntries, e.value.Agrees
  := by
  let byte : WrittenInteger := ⟨true, ['1', '2', '8'], some 'y', by simp [Digits], by simp⟩
  let kilobytes : WrittenInteger :=
    ⟨false, ['0', '0', '6', '4'], some 'K', by simp [Digits], by simp⟩
  let a : IntegerOption := ⟨⟨"a", false, default⟩, byte, by decide +kernel⟩
  let b : IntegerOption := ⟨⟨"b", false, default⟩, kilobytes, by decide +kernel⟩
  have htext : IntegerOption.loadText [a, b] =
      "LOAD DATA INPATH 'p' INTO TABLE t OPTIONS (a -128y, b 0064K)" := by decide +kernel
  have hgiven : IntegerOption.given [a, b] =
      .ok [("a", .byte (-128)), ("b", .byteLength 65536)] := by decide +kernel
  have hkeys : ([a, b].map fun o : IntegerOption => o.key.value).Nodup := by decide +kernel
  have hkept := (integers_keep_value.2 a [b] hkeys).values _ hgiven
  rw [htext] at hkept
  refine ⟨hkept, ?_⟩
  obtain ⟨l, hl, -⟩ := IntegerOption.parseStatement_loadText a [b]
  rw [htext] at hl
  exact ⟨l, hl, (integers_keep_value.1 _ _ _ hl rfl).1⟩

end SqlFront
