import Mathlib.Data.List.TakeWhile
import SqlFront.Proofs.Printing.Literals
import SqlFront.Proofs.Printing.Words
import SqlFront.Proofs.Tokens.Tiling

/-!
# Words that stand for themselves

The words for texts, names, numbers and operators are single tokens, and these tokens give back what
the words were made from.
-/

namespace SqlFront

open Token

/-! ### Lists of words -/

theorem length_le_flatMap {α β : Type} (f : α → List β) (hf : ∀ a, f a ≠ []) (as : List α) :
  as.length ≤ (as.flatMap f).length
  := by
  induction as with
  | nil => simp
  | cons a as ih =>
      have hpos := List.length_pos_iff.mpr (hf a)
      rw [List.flatMap_cons, List.length_append, List.length_cons]
      omega

theorem intersperse_cons {α : Type} (sep a : α) (as : List α) :
  (a :: as).intersperse sep = a :: as.flatMap fun b => [sep, b]
  := by
  induction as generalizing a with
  | nil => rfl
  | cons b as ih =>
      rw [List.intersperse_cons_cons, ih b]
      rfl

/-! ### Texts -/

namespace Text

/-- Texts are written between single quotes. -/
theorem quote_eq_literal (text : String) :
  quote text = literal '\x27' text
  := rfl

/-- A string literal has the value that it was made from. -/
theorem unescape_quote (text : String) :
  unescape (quote text) = text
  := by
  rw [quote_eq_literal, unescape_literal rfl]

theorem kindOf?_quote (text : String) :
  kindOf? (quote text) = some .string
  := by
  rw [quote_eq_literal, kindOf?_literal rfl]

/-! ### Names -/

/-- A back-quoted name ends with its closing back-quote, unless another one follows. -/
theorem backQuotedLength?_doubleBackQuotes {more : List Char} (hmore : more.head? ≠ some '\x60')
    (cs : List Char) :
  backQuotedLength? (doubleBackQuotes cs ++ '\x60' :: more) =
    some ((doubleBackQuotes cs).length + 1)
  := by
  induction cs with
  | nil =>
      cases more with
      | nil => rfl
      | cons c more =>
          have hc : c ≠ '\x60' := by simpa using hmore
          simp [doubleBackQuotes, backQuotedLength?, hc]
  | cons c cs ih =>
      rw [doubleBackQuotes]
      split
      · simp only [List.cons_append, backQuotedLength?, ih]
        rfl
      · next hc =>
          rw [List.cons_append, backQuotedLength?_cons hc, ih]
          rfl

/-- A back-quoted name is measured to its closing back-quote, unless another one follows. -/
theorem measure_backQuote {more : List Char} (hmore : more.head? ≠ some '\x60') (cs : List Char) :
  Token.measure '\x60' (doubleBackQuotes cs ++ ['\x60'] ++ more) =
    .ok (.quotedIdentifier, (doubleBackQuotes cs ++ ['\x60']).length)
  := by
  rw [List.append_assoc, List.singleton_append,
    Token.measure_quoted (backQuotedLength?_doubleBackQuotes hmore cs), List.length_append]
  rfl

theorem kindOf?_backQuote (name : String) :
  kindOf? (backQuote name) = some .quotedIdentifier
  := by
  have hmeasure : Token.measure '\x60' (doubleBackQuotes name.toList ++ ['\x60']) =
      .ok (.quotedIdentifier, (doubleBackQuotes name.toList ++ ['\x60']).length) := by
    simpa using @measure_backQuote [] (by simp) name.toList
  simp only [kindOf?, backQuote, String.toList_ofList, List.cons_append, hmeasure]
  simp [Kind.isHidden]

theorem textOf_backQuote (name : String) :
  textOf .quotedIdentifier (backQuote name).toList = name
  := by
  simp [textOf, backQuote, unBackQuote, collapseBackQuotes_doubleBackQuotes]

end Text

theorem text_ofWord {word : String} {kind : Kind} (h : kindOf? word = some kind)
    (hkind : kind ≠ .quotedIdentifier) :
  (ofWord word).text = word
  := by
  simp [ofWord, h, textOf, hkind]

/-- The word for a name is a token that stands for the name. -/
theorem Ident.ofWord_word {i : Ident} (hi : i.isWritable) :
  ∃ kind, kindOf? i.word = some kind ∧ kind.isName ∧ (ofWord i.word).text = i.value ∧
    (kind = .quotedIdentifier ↔ i.quoted)
  := by
  unfold word
  split
  · next hquoted =>
      refine ⟨.quotedIdentifier, Text.kindOf?_backQuote _, rfl, ?_, by simp [hquoted]⟩
      simp only [ofWord, Text.kindOf?_backQuote, Option.getD_some, Text.textOf_backQuote]
  · next hquoted =>
      simp only [isWritable, hquoted, Bool.false_or, Option.any_eq_true, Bool.and_eq_true,
        decide_eq_true_eq] at hi
      obtain ⟨kind, hkind, hname, hne⟩ := hi
      exact ⟨kind, hkind, hname, text_ofWord hkind hne, by simp [hne, hquoted]⟩

/-- A name that stands for itself can be written without quotes. -/
theorem Ident.isWritable_of_identifier {name : String} (hname : kindOf? name = some .identifier)
    (span : Span) :
  isWritable ⟨name, false, span⟩
  := by
  simp [isWritable, hname, Kind.isName, Kind.isIdentifier]

theorem QualifiedName.isWritable_of_identifier {name : String}
    (hname : kindOf? name = some .identifier) (inner outer : Span) :
  isWritable ⟨[⟨name, false, inner⟩], outer⟩
  := by
  simp [isWritable, Ident.isWritable_of_identifier hname]

/-! ### Numerals -/

/-- A word that begins with a digit is no keyword. -/
theorem Keyword.lookup?_of_isDigit {word : String} {c : Char} {cs : List Char}
    (hword : word.toList = c :: cs) (hc : c.isDigit) :
  lookup? word = none
  := by
  have hupper := toUpper_of_isDigit hc
  have hne : ∀ other : String, other.toList.head?.any Char.isDigit = false →
      other ≠ word.toUpper := by
    rintro _ hother rfl
    rw [String.toUpper, String.toList_map, hword, List.map_cons, hupper, List.head?_cons,
      Option.any_some, hc] at hother
    contradiction
  have hbeq : ∀ other : String, other.toList.head?.any Char.isDigit = false →
      (word.toUpper == other) = false :=
    fun other hother => beq_eq_false_iff_ne.mpr (hne other hother).symm
  have hall : (all.find? fun k => k.spelling == word.toUpper) = none := by
    rw [List.find?_eq_none]
    intro k _
    simpa using hne k.spelling k.not_isDigit_spelling
  rw [lookup?, hall, Option.none_or]
  simp [alternates, List.lookup_cons, hbeq "REGEXP" rfl, hbeq "TEMP" rfl, hbeq "SCHEMA" rfl,
    hbeq "SCHEMAS" rfl]

theorem Match.runLength_eq_length {p : Char → Bool} {cs : List Char} (h : ∀ c ∈ cs, p c) :
  runLength p cs = cs.length
  := by
  rw [runLength, List.takeWhile_eq_self_iff.mpr h]

/-- The only number that digits may be is the whole one that takes all of them. -/
theorem Match.numberMatches_digits {cs : List Char} (hne : cs ≠ []) (h : ∀ c ∈ cs, c.isDigit) :
  numberMatches cs = [(.number .integer, cs.length)]
  := by
  have hlength : cs.length ≠ 0 := by simpa using hne
  have hdigits : digitEnds cs = [cs.length] := by
    simp [digitEnds, runLength_eq_length h, hne]
  have hpoints : pointEnds cs = [] := by
    simp [pointEnds, runLength_eq_length h]
  have hexponent : withExponent cs cs.length = [cs.length] := by
    simp [withExponent, exponentLength?]
  have hsuffix : ∀ suffix, suffix ≠ [] → startsWithSuffix suffix (cs.drop cs.length) = false := by
    intro suffix hsuffix
    rw [List.drop_length, startsWithSuffix, List.take_nil, List.map_nil]
    simpa using hsuffix.symm
  simp [numberMatches, hdigits, hpoints, hexponent, suffixed, closed, decimals, hsuffix,
    -List.drop_length]

/-- Digits are a whole number. -/
theorem Token.kindOf?_digits {word : String} {c : Char} {cs : List Char}
    (hword : word.toList = c :: cs) (hdigits : ∀ d ∈ c :: cs, d.isDigit) :
  kindOf? word = some (.number .integer)
  := by
  have hchar : ∀ d ∈ c :: cs, Match.isWordChar d := by
    intro d hd
    simp [Match.isWordChar, Char.isAlphanum, hdigits d hd]
  have hjob : ∀ d ∈ c :: cs, Match.isJobChar d := by
    intro d hd
    simp [Match.isJobChar, hchar d hd]
  have hkeyword : Match.keywordMatches (c :: cs) = [] := by
    rw [Match.keywordMatches, List.takeWhile_eq_self_iff.mpr hchar]
    simp only [Keyword.lookup?_of_isDigit String.toList_ofList (hdigits c (by simp))]
  have hdot : Match.dotMatches (c :: cs) = [] := by
    have hc := hdigits c (by simp)
    unfold Match.dotMatches
    split
    · next heq =>
        obtain ⟨rfl, -⟩ := List.cons.inj heq
        contradiction
    · rfl
  have hmatches : Match.wordMatches (c :: cs) =
      [(.number .integer, cs.length + 1), (.identifier, cs.length + 1),
        (.jobIdentifier, cs.length + 1)] := by
    simp [Match.wordMatches, hkeyword, hdot, Match.numberMatches_digits (List.cons_ne_nil c cs) hdigits,
      Match.nameMatches, Match.endsWord, hchar c (by simp), Match.runLength_eq_length hchar,
      Match.runLength_eq_length hjob]
  have hother : ∀ d, d.isDigit = false → c ≠ d := by
    rintro d hd rfl
    simp [hdigits c (by simp)] at hd
  have hblank : isBlank c = false := by
    simp [isBlank, hother ' ' rfl, hother '\t' rfl, hother '\n' rfl, hother '\r' rfl]
  have hmeasure : Token.measure c cs = .ok (.number .integer, cs.length) := by
    simp [Token.measure, hblank, hother '\x27' rfl, hother '\x22' rfl, hother '\x60' rfl,
      hother '-' rfl, hother '/' rfl, hchar c (by simp), hmatches, Match.longest?]
  simp [kindOf?, hword, hmeasure, Kind.isHidden]

theorem Token.kindOf?_repr (n : Nat) :
  kindOf? n.repr = some (.number .integer)
  := by
  obtain ⟨c, cs, hcs⟩ := List.exists_cons_of_ne_nil (Nat.toDigits_ne_nil (n := n) (b := 10))
  have hword : n.repr.toList = c :: cs := by
    rw [Nat.toList_repr, hcs]
  apply kindOf?_digits hword
  intro d hd
  rw [← hcs] at hd
  apply Nat.isDigit_of_mem_toDigits (by decide) (by decide) hd

/-- A numeral has the value that it was made from. -/
theorem Number.appendDigits_repr (n : Nat) :
  appendDigits 0 n.repr.toList = n
  := by
  have h := Nat.ofDigitChars_toDigits (b := 10) (n := n) (by decide) (by decide)
  rw [Nat.ofDigitChars_eq_foldl] at h
  rw [Nat.toList_repr, appendDigits]
  simpa only [Nat.mul_comm] using h

/-! ### Operators -/

/-- The word for an operator is the token for the operator. -/
theorem UnaryOp.kindOf?_word {op : UnaryOp} (hop : op ≠ .not) :
  ∃ kind, kindOf? op.word = some kind ∧ ofKind? kind = some op
  := by
  cases op with
  | minus => exact ⟨.minus, by decide, rfl⟩
  | plus => exact ⟨.plus, by decide, rfl⟩
  | bitNot => exact ⟨.tilde, by decide, rfl⟩
  | not => contradiction

/-- The word for an operator is the token for the operator. -/
theorem BinaryOp.kindOf?_word (op : BinaryOp) :
  ∃ kind, kindOf? op.word = some kind ∧ ofKind? kind = some op
  := by
  cases op with
  | or => exact ⟨.keyword .OR, Keyword.kindOf?_spelling (k := .OR) (by decide), rfl⟩
  | and => exact ⟨.keyword .AND, Keyword.kindOf?_spelling (k := .AND) (by decide), rfl⟩
  | eq => exact ⟨.eq, by decide, rfl⟩
  | nullSafeEq => exact ⟨.nullSafeEq, by decide, rfl⟩
  | notEq => exact ⟨.notEq, by decide, rfl⟩
  | lt => exact ⟨.lt, by decide, rfl⟩
  | ltEq => exact ⟨.ltEq, by decide, rfl⟩
  | gt => exact ⟨.gt, by decide, rfl⟩
  | gtEq => exact ⟨.gtEq, by decide, rfl⟩
  | bitOr => exact ⟨.pipe, by decide, rfl⟩
  | bitXor => exact ⟨.caret, by decide, rfl⟩
  | bitAnd => exact ⟨.ampersand, by decide, rfl⟩
  | add => exact ⟨.plus, by decide, rfl⟩
  | subtract => exact ⟨.minus, by decide, rfl⟩
  | multiply => exact ⟨.asterisk, by decide, rfl⟩
  | divide => exact ⟨.slash, by decide, rfl⟩
  | modulo => exact ⟨.percent, by decide, rfl⟩
  | intDivide => exact ⟨.keyword .DIV, Keyword.kindOf?_spelling (k := .DIV) (by decide), rfl⟩

/-! ### Words that are tokens -/

/-- Every word is a token of its own. -/
def AreTokens (words : List String) : Prop := ∀ w ∈ words, (kindOf? w).isSome

theorem areTokens_samples {ws : List String} (h : ∀ w ∈ ws, w ∈ samples.map Prod.fst) :
  AreTokens ws
  := by
  intro w hw
  obtain ⟨⟨_, k⟩, hk, rfl⟩ := List.mem_map.mp (h w hw)
  rw [kindOf?_of_mem_samples hk]
  rfl

@[simp]
theorem areTokens_nil :
  AreTokens []
  := by
  simp [AreTokens]

@[simp]
theorem areTokens_cons {w : String} {ws : List String} :
  AreTokens (w :: ws) ↔ (kindOf? w).isSome ∧ AreTokens ws
  := List.forall_mem_cons

@[simp]
theorem areTokens_append {vs ws : List String} :
  AreTokens (vs ++ ws) ↔ AreTokens vs ∧ AreTokens ws
  := List.forall_mem_append

theorem areTokens_flatMap {α : Type} {f : α → List String} {as : List α}
    (h : ∀ a ∈ as, AreTokens (f a)) :
  AreTokens (as.flatMap f)
  := by
  intro w hw
  obtain ⟨a, ha, hwa⟩ := List.mem_flatMap.mp hw
  apply h a ha w hwa

theorem areTokens_intersperse {sep : String} {ws : List String} (hsep : (kindOf? sep).isSome)
    (hws : AreTokens ws) :
  AreTokens (ws.intersperse sep)
  := by
  cases ws with
  | nil => apply areTokens_nil
  | cons w ws =>
      rw [intersperse_cons, areTokens_cons]
      rw [areTokens_cons] at hws
      use hws.1
      apply areTokens_flatMap
      intro v hv
      simp [hsep, hws.2 v hv]

theorem Keyword.isSome_spelling {k : Keyword} (hk : k ∈ inExpressions) :
  (kindOf? k.spelling).isSome
  := by
  rw [kindOf?_spelling hk, Option.isSome_some]

theorem areTokens_notWords (negated : Bool) :
  AreTokens (notWords negated)
  := by
  have hnot := Keyword.isSome_spelling (k := .NOT) (by decide)
  cases negated <;> simp [notWords, hnot]

theorem Ident.isSome_word {i : Ident} (hi : i.isWritable) :
  (kindOf? i.word).isSome
  := by
  obtain ⟨k, hk, -⟩ := Ident.ofWord_word hi
  rw [hk, Option.isSome_some]

theorem QualifiedName.areTokens_words {name : QualifiedName} (hname : name.isWritable) :
  AreTokens name.words
  := by
  simp only [isWritable, Bool.and_eq_true, List.all_eq_true] at hname
  apply areTokens_intersperse (by rw [kindOf?_dot, Option.isSome_some])
  intro w hw
  obtain ⟨i, hi, rfl⟩ := List.mem_map.mp hw
  apply Ident.isSome_word (hname.2 i hi)

theorem Literal.areTokens_words {value : Literal} (hvalue : value.isWritable) :
  AreTokens value.words
  := by
  cases value with
  | null => simp [words, Keyword.isSome_spelling (k := .NULL) (by decide)]
  | boolean value =>
      have hfalse := Keyword.isSome_spelling (k := .FALSE) (by decide)
      have htrue := Keyword.isSome_spelling (k := .TRUE) (by decide)
      cases value <;> simp [words, hfalse, htrue]
  | string value => simp [words, Text.kindOf?_quote]
  | number form text =>
      simp only [isWritable, decide_eq_true_eq] at hvalue
      simp [words, hvalue]
  | typed type value =>
      simp only [isWritable, Bool.and_eq_true, decide_eq_true_eq] at hvalue
      simp [words, hvalue.1, Text.kindOf?_quote]
  | interval fields => contradiction

theorem DataType.areTokens_words {type : DataType} (htype : type.isWritable) :
  AreTokens type.words
  := by
  induction type with
  | primitive name parameters =>
      simp only [isWritable, Option.any_eq_true, Bool.and_eq_true] at htype
      obtain ⟨⟨⟨k, hk, -⟩, -⟩, -⟩ := htype
      cases parameters with
      | nil => simp [words, hk]
      | cons n ns =>
          have hnumbers : AreTokens ((n :: ns).map Nat.repr) := by
            intro w hw
            obtain ⟨m, -, rfl⟩ := List.mem_map.mp hw
            rw [kindOf?_repr, Option.isSome_some]
          have hcomma : (kindOf? ",").isSome := by rw [kindOf?_comma, Option.isSome_some]
          simp [-List.map_cons, words, hk, kindOf?_leftParen, kindOf?_rightParen,
            areTokens_intersperse hcomma hnumbers]
  | array element ih =>
      simp [words, Keyword.isSome_spelling (k := .ARRAY) (by decide), kindOf?_lt, kindOf?_gt,
        ih htype]
  | map key value ihkey ihvalue =>
      simp only [isWritable, Bool.and_eq_true] at htype
      simp [words, Keyword.isSome_spelling (k := .MAP) (by decide), kindOf?_lt, kindOf?_gt,
        kindOf?_comma, ihkey htype.1, ihvalue htype.2]

end SqlFront
