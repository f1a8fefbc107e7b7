import Mathlib.Data.List.Basic
import SqlFront.Token.Next

/-!
# Measured tokens

What `Token.measure` says of the token that a text begins with.  How the text begins decides which
rule applies (`Token.opening`), and there is an equation for each rule.  The token is never `eof`,
it does not reach beyond the text (`Token.measure_le`), and where it is a back-quoted name, its
characters are that name between back-quotes, with those inside it doubled
(`Token.eq_backQuote_of_measure`).
-/

namespace SqlFront

/-- Whether tokens of this kind are found by the rules for words. -/
def Kind.isWord : Kind → Bool
  | keyword _ | number _ | identifier | jobIdentifier | dot => true
  | _ => false

/-! ### Longest matches -/

namespace Match

theorem longest?_mem {found : List Match} {m : Match} (h : longest? found = some m) :
  m ∈ found
  := by
  induction found generalizing m with
  | nil => simp [longest?] at h
  | cons first others ih =>
      rw [longest?] at h
      cases hbest : longest? others with
      | none => simp_all
      | some best =>
          have hmem := ih hbest
          simp only [hbest, Option.some.injEq] at h
          split at h <;> simp_all

theorem runLength_le (p : Char → Bool) (cs : List Char) :
  runLength p cs ≤ cs.length
  := (List.takeWhile_prefix p).length_le

theorem signLength_cons (c : Char) (cs : List Char) :
  signLength (c :: cs) = if c = '+' ∨ c = '-' then 1 else 0
  := by
  unfold signLength
  split <;> simp_all

theorem exponentLength?_le {cs : List Char} {n : Nat} (h : exponentLength? cs = some n) :
  n ≤ cs.length
  := by
  cases cs with
  | nil => simp [exponentLength?] at h
  | cons c cs =>
      have hdigits := runLength_le Char.isDigit (cs.drop (signLength cs))
      rw [List.length_drop] at hdigits
      simp only [exponentLength?, Option.ite_none_right_eq_some, Option.some.injEq] at h
      obtain ⟨⟨-, hpos⟩, rfl⟩ := h
      simp only [List.length_cons]
      omega

/-- A number whose digits lie inside the text ends inside the text. -/
theorem withExponent_le {cs : List Char} {base n : Nat} (hbase : base ≤ cs.length)
    (h : n ∈ withExponent cs base) :
  n ≤ cs.length
  := by
  rw [withExponent] at h
  split at h
  · simp_all
  · next exponent hexponent =>
      have := exponentLength?_le hexponent
      rw [List.length_drop] at this
      simp only [List.mem_cons, List.not_mem_nil, or_false] at h
      omega

theorem digitEnds_le {cs : List Char} {n : Nat} (h : n ∈ digitEnds cs) :
  n ≤ cs.length
  := by
  have := runLength_le Char.isDigit cs
  simp only [digitEnds] at h
  split at h <;> simp_all

theorem pointEnds_le {cs : List Char} {n : Nat} (h : n ∈ pointEnds cs) :
  n ≤ cs.length
  := by
  simp only [pointEnds] at h
  split at h
  · next fraction hfraction =>
      have hlength := congrArg List.length hfraction
      have hplaces := runLength_le Char.isDigit fraction
      simp only [List.length_drop, List.length_cons] at hlength
      split at h
      · simp at h
      · simp only [List.mem_cons, List.not_mem_nil, or_false] at h
        omega
  · simp at h

/-- A match with a suffix is a number, and lies inside the text. -/
theorem of_mem_suffixed {form : NumberForm} {suffix cs : List Char} {ends : List Nat} {m : Match}
    (hends : ∀ n ∈ ends, n ≤ cs.length) (h : m ∈ suffixed form suffix cs ends) :
  m.1 = .number form ∧ m.2 ≤ cs.length
  := by
  simp only [suffixed, List.mem_map, List.mem_filter] at h
  obtain ⟨n, ⟨hn, hsuffix⟩, rfl⟩ := h
  have hlength := congrArg List.length (beq_iff_eq.mp hsuffix)
  simp only [List.length_map, List.length_take, List.length_drop] at hlength
  have := hends n hn
  constructor
  · rfl
  · simp only
    omega

/-- The match of a number rule is a number, and lies inside the text. -/
theorem of_mem_numberMatches {cs : List Char} {m : Match} (h : m ∈ numberMatches cs) :
  (∃ form, m.1 = .number form) ∧ m.2 ≤ cs.length
  := by
  have hdigits : ∀ n ∈ digitEnds cs, n ≤ cs.length := fun _ => digitEnds_le
  have hwhole : ∀ n ∈ (digitEnds cs).flatMap (withExponent cs), n ≤ cs.length := by
    intro n hn
    obtain ⟨base, hbase, hn⟩ := List.mem_flatMap.mp hn
    apply withExponent_le (hdigits base hbase) hn
  have hpoint : ∀ n ∈ (pointEnds cs).flatMap (withExponent cs), n ≤ cs.length := by
    intro n hn
    obtain ⟨base, hbase, hn⟩ := List.mem_flatMap.mp hn
    apply withExponent_le (pointEnds_le hbase) hn
  have of_suffixed : ∀ {form suffix ends}, (∀ n ∈ ends, n ≤ cs.length) →
      m ∈ suffixed form suffix cs ends → (∃ form, m.1 = .number form) ∧ m.2 ≤ cs.length := by
    intro form suffix ends hends hm
    obtain ⟨hkind, hle⟩ := of_mem_suffixed hends hm
    exact ⟨⟨form, hkind⟩, hle⟩
  have of_decimals : ∀ {ends : List Nat}, (∀ n ∈ ends, n ≤ cs.length) →
      m ∈ decimals ends → (∃ form, m.1 = .number form) ∧ m.2 ≤ cs.length := by
    intro ends hends hm
    obtain ⟨n, hn, rfl⟩ := List.mem_map.mp hm
    exact ⟨⟨_, rfl⟩, hends n hn⟩
  simp only [numberMatches, closed, List.mem_append, List.mem_flatMap] at h
  rcases h with (((((((((h | h) | h) | h) | h) | h) | h) | h) | h) | h) | h
  · apply of_suffixed hdigits h
  · apply of_suffixed hdigits h
  · apply of_suffixed hdigits h
  · obtain ⟨unit, -, h⟩ := h
    apply of_suffixed hdigits h
  · obtain ⟨n, hn, rfl⟩ := List.mem_map.mp h
    exact ⟨⟨_, rfl⟩, hdigits n hn⟩
  · apply of_decimals _ h
    intro n hn
    apply hwhole n (List.mem_of_mem_drop hn)
  · apply of_decimals hpoint (List.mem_filter.mp h).1
  · apply of_suffixed hwhole h
  · apply of_suffixed hpoint (List.mem_filter.mp h).1
  · apply of_suffixed hwhole h
  · apply of_suffixed hpoint (List.mem_filter.mp h).1

/-- What the word rules match is a keyword, a number, a name or a dot, and lies inside the
text. -/
theorem of_mem_wordMatches {cs : List Char} {m : Match} (h : m ∈ wordMatches cs) :
  m.1.isWord ∧ m.2 ≤ cs.length
  := by
  simp only [wordMatches, List.mem_append] at h
  rcases h with (((h | h) | h) | h) | h
  · simp only [keywordMatches] at h
    split at h
    · simp only [List.mem_cons, List.not_mem_nil, or_false] at h
      subst h
      exact ⟨rfl, runLength_le isWordChar cs⟩
    · simp at h
  · obtain ⟨⟨form, hform⟩, hle⟩ := of_mem_numberMatches h
    rw [hform]
    exact ⟨rfl, hle⟩
  · simp only [nameMatches] at h
    split at h
    · simp at h
    · simp only [List.mem_cons, List.not_mem_nil, or_false] at h
      subst h
      exact ⟨rfl, runLength_le _ cs⟩
  · simp only [nameMatches] at h
    split at h
    · simp at h
    · simp only [List.mem_cons, List.not_mem_nil, or_false] at h
      subst h
      exact ⟨rfl, runLength_le _ cs⟩
  · cases cs with
    | nil => simp [dotMatches] at h
    | cons c cs =>
        by_cases hc : c = '.'
        · subst hc
          simp only [dotMatches, List.mem_cons, List.not_mem_nil, or_false] at h
          subst h
          simp [Kind.isWord]
        · simp [dotMatches, hc] at h

end Match

/-! ### The lengths of the other tokens -/

namespace Token

theorem stringLength?_le {quote : Char} {cs : List Char} {n : Nat}
    (h : stringLength? quote cs = some n) :
  n ≤ cs.length
  := by
  fun_induction stringLength? quote cs generalizing n with
  | case1 => simp at h
  | case2 => simp at h
  | case3 _ rest ih =>
      obtain ⟨m, hm, rfl⟩ := Option.map_eq_some_iff.mp h
      have := ih hm
      simp only [List.length_cons]
      omega
  | case4 rest => simp_all
  | case5 c rest _ _ hc ih =>
      obtain ⟨m, hm, rfl⟩ := Option.map_eq_some_iff.mp h
      have := ih hm
      simp only [List.length_cons]
      omega

theorem commentLength?_le {cs : List Char} {n : Nat} (h : commentLength? cs = some n) :
  n ≤ cs.length
  := by
  fun_induction commentLength? cs generalizing n with
  | case1 rest =>
      simp only [Option.some.injEq] at h
      simp only [List.length_cons]
      omega
  | case2 c rest _ ih =>
      obtain ⟨m, hm, rfl⟩ := Option.map_eq_some_iff.mp h
      have := ih hm
      simp only [List.length_cons]
      omega
  | case3 => simp at h

theorem lineLength_le (cs : List Char) :
  lineLength cs ≤ cs.length
  := by
  have hline := Match.runLength_le (fun c => c != '\r' && c != '\n') cs
  have hend : ∀ ds : List Char, lineEndLength ds ≤ ds.length := by
    intro ds
    fun_cases lineEndLength ds <;> simp
  have := hend (cs.drop (Match.runLength (fun c => c != '\r' && c != '\n') cs))
  rw [List.length_drop] at this
  simp only [lineLength]
  omega

/-- At a slash stands a comment or the slash alone. -/
inductive MeasuredSlash : List Char → Kind → Nat → Prop where
  | emptyComment (cs : List Char) : MeasuredSlash ('*' :: '*' :: '/' :: cs) .emptyComment 3
  | blockComment {c : Char} {cs : List Char} {n : Nat} (closed : commentLength? cs = some n) :
      MeasuredSlash ('*' :: c :: cs) .blockComment (n + 2)
  | alone (cs : List Char) : MeasuredSlash cs .slash 0

theorem measuredSlash_of_measureSlash {cs : List Char} {kind : Kind} {n : Nat}
    (h : measureSlash cs = .ok (kind, n)) :
  MeasuredSlash cs kind n
  := by
  unfold measureSlash at h
  split at h
  · obtain ⟨rfl, rfl⟩ := Prod.mk.inj (Except.ok.inj h)
    exact .emptyComment _
  · obtain ⟨rfl, rfl⟩ := Prod.mk.inj (Except.ok.inj h)
    exact .alone _
  · split at h
    · next m hm =>
        obtain ⟨rfl, rfl⟩ := Prod.mk.inj (Except.ok.inj h)
        exact .blockComment hm
    · contradiction
  · contradiction
  · obtain ⟨rfl, rfl⟩ := Prod.mk.inj (Except.ok.inj h)
    exact .alone _

theorem of_measureSlash {cs : List Char} {kind : Kind} {n : Nat}
    (h : measureSlash cs = .ok (kind, n)) :
  n ≤ cs.length ∧ (kind = .emptyComment ∨ kind = .slash ∨ kind = .blockComment)
  := by
  cases measuredSlash_of_measureSlash h with
  | emptyComment => simp
  | blockComment closed =>
      have := commentLength?_le closed
      simp only [List.length_cons]
      constructor
      · omega
      · simp
  | alone => simp

theorem measureOperator_le (c : Char) (rest : List Char) :
  (measureOperator c rest).2 ≤ rest.length
  := by
  fun_cases measureOperator c rest <;> simp

theorem backQuotedLength?_cons {c : Char} (hc : c ≠ '\x60') (cs : List Char) :
  backQuotedLength? (c :: cs) = (backQuotedLength? cs).map (· + 1)
  := by
  rw [backQuotedLength?.eq_def]
  split <;> simp_all

/-- What is measured behind an opening back-quote is a name with its back-quotes doubled, and
the back-quote that closes it. -/
theorem take_backQuotedLength? {cs : List Char} {n : Nat} (h : backQuotedLength? cs = some n) :
  n ≤ cs.length ∧ ∃ name, cs.take n = Text.doubleBackQuotes name ++ ['\x60']
  := by
  fun_induction backQuotedLength? cs generalizing n with
  | case1 => simp at h
  | case2 rest ih =>
      cases hrest : backQuotedLength? rest with
      | none =>
          simp only [hrest, Option.elim_none, Option.some.injEq] at h
          subst h
          exact ⟨by simp, [], rfl⟩
      | some m =>
          obtain ⟨hle, name, hname⟩ := ih hrest
          simp only [hrest, Option.elim_some, Option.some.injEq] at h
          subst h
          constructor
          · simpa using hle
          · use '\x60' :: name
            simp [Text.doubleBackQuotes, hname]
  | case3 rest =>
      simp only [Option.some.injEq] at h
      subst h
      exact ⟨by simp, [], rfl⟩
  | case4 c rest _ hc ih =>
      obtain ⟨m, hm, rfl⟩ := Option.map_eq_some_iff.mp h
      obtain ⟨hle, name, hname⟩ := ih hm
      constructor
      · simpa using hle
      · use c :: name
        simp_all [Text.doubleBackQuotes]

/-! ### How tokens begin -/

section

variable {c : Char} {rest : List Char} {n : Nat}

/-- No other rule applies where an operator or no token begins. -/
structure BeginsOperator (c : Char) (rest : List Char) : Prop where
  noBlank : ¬ isBlank c
  noQuote : ¬ (c = '\x27' ∨ c = '\x22')
  noBackQuote : c ≠ '\x60'
  noDashes : ¬ (c = '-' ∧ rest.head? = some '-')
  noSlash : c ≠ '/'
  noWord : ¬ (Match.isWordChar c ∨ c = '.')

/-- Which rule a text that begins with a character is measured by. -/
inductive Opening (rest : List Char) : Char → Prop where
  | blank {c : Char} (isBlank : isBlank c) : Opening rest c
  | string {c : Char} {n : Nat} (isQuote : c = '\x27' ∨ c = '\x22')
      (closed : stringLength? c rest = some n) : Opening rest c
  | openString {c : Char} (isQuote : c = '\x27' ∨ c = '\x22') (endless : stringLength? c rest = none) :
      Opening rest c
  | quoted {n : Nat} (closed : backQuotedLength? rest = some n) : Opening rest '\x60'
  | openQuoted (endless : backQuotedLength? rest = none) : Opening rest '\x60'
  | dashes (another : rest.head? = some '-') : Opening rest '-'
  | slash : Opening rest '/'
  | word {c : Char} (begins : Match.isWordChar c ∨ c = '.') : Opening rest c
  | operator {c : Char} (begins : BeginsOperator c rest) : Opening rest c

theorem opening (c : Char) (rest : List Char) :
  Opening rest c
  := by
  by_cases hblank : isBlank c
  · exact .blank hblank
  by_cases hquote : c = '\x27' ∨ c = '\x22'
  · cases hclosed : stringLength? c rest with
    | none => exact .openString hquote hclosed
    | some n => exact .string hquote hclosed
  by_cases hname : c = '\x60'
  · subst hname
    cases hclosed : backQuotedLength? rest with
    | none => exact .openQuoted hclosed
    | some n => exact .quoted hclosed
  by_cases hdashes : c = '-' ∧ rest.head? = some '-'
  · obtain ⟨rfl, hhead⟩ := hdashes
    exact .dashes hhead
  by_cases hslash : c = '/'
  · subst hslash
    exact .slash
  by_cases hword : Match.isWordChar c ∨ c = '.'
  · exact .word hword
  · exact .operator ⟨hblank, hquote, hname, hdashes, hslash, hword⟩

theorem measure_of_isBlank (h : isBlank c) :
  measure c rest = .ok (.whitespace, Match.runLength isBlank rest)
  := by
  rw [measure, if_pos h]

theorem measure_of_isQuote (h : c = '\x27' ∨ c = '\x22') :
  measure c rest = (stringLength? c rest).elim (.error .openString) fun n => .ok (.string, n)
  := by
  have hblank : ¬ isBlank c := by
    rcases h with rfl | rfl <;> decide
  rw [measure, if_neg hblank, if_pos h]
  cases stringLength? c rest <;> rfl

theorem measure_string (h : c = '\x27' ∨ c = '\x22') (hclosed : stringLength? c rest = some n) :
  measure c rest = .ok (.string, n)
  := by
  rw [measure_of_isQuote h, hclosed]
  rfl

theorem measure_openString (h : c = '\x27' ∨ c = '\x22') (hendless : stringLength? c rest = none) :
  measure c rest = .error .openString
  := by
  rw [measure_of_isQuote h, hendless]
  rfl

theorem measure_quoted (hclosed : backQuotedLength? rest = some n) :
  measure '\x60' rest = .ok (.quotedIdentifier, n)
  := by
  simp [measure, isBlank, hclosed]

theorem measure_openQuoted (hendless : backQuotedLength? rest = none) :
  measure '\x60' rest = .ok (.unrecognized, 0)
  := by
  simp [measure, isBlank, hendless]

/-- Two dashes begin a line comment. -/
theorem measure_dashes (cs : List Char) :
  measure '-' ('-' :: cs) = .ok (.lineComment, 1 + lineLength cs)
  := rfl

theorem measure_of_word (h : Match.isWordChar c ∨ c = '.') :
  measure c rest = .ok ((Match.longest? (Match.wordMatches (c :: rest))).elim (.unrecognized, 0)
    fun m => (m.1, m.2 - 1))
  := by
  have hother : ∀ d, ¬ (Match.isWordChar d ∨ d = '.') → c ≠ d := by
    rintro d hd rfl
    contradiction
  have hblank : isBlank c = false := by
    simp [isBlank, hother ' ' (by decide), hother '\t' (by decide), hother '\n' (by decide),
      hother '\r' (by decide)]
  simp only [measure, hblank, hother '\x27' (by decide), hother '\x22' (by decide),
    hother '\x60' (by decide), hother '-' (by decide), hother '/' (by decide), h,
    Bool.false_eq_true, false_and, or_self, if_false, if_true]
  cases Match.longest? (Match.wordMatches (c :: rest)) <;> rfl

theorem measure_operator (h : BeginsOperator c rest) :
  measure c rest = .ok (measureOperator c rest)
  := by
  rw [measure, if_neg h.noBlank, if_neg h.noQuote, if_neg h.noBackQuote, if_neg h.noDashes,
    if_neg h.noSlash, if_neg h.noWord]

/-- What begins an operator does so before any other text that does not make a line comment of it. -/
theorem BeginsOperator.congr {others : List Char} (h : BeginsOperator c rest)
    (hdashes : c = '-' → others.head? ≠ some '-') :
  BeginsOperator c others
  := { h with noDashes := fun hc => hdashes hc.1 hc.2 }

end

/-! ### Any token -/

/-- What a text that begins with `c` may be measured as. -/
inductive Measured (c : Char) (rest : List Char) : Kind → Nat → Prop where
  | whitespace (blank : isBlank c) : Measured c rest .whitespace (Match.runLength isBlank rest)
  | string {n : Nat} (closed : stringLength? c rest = some n) : Measured c rest .string n
  | quoted {n : Nat} (opened : c = '\x60') (closed : backQuotedLength? rest = some n) :
      Measured c rest .quotedIdentifier n
  | lineComment (opened : rest.head? = some '-') :
      Measured c rest .lineComment (1 + lineLength (rest.drop 1))
  | slash {kind : Kind} {n : Nat} (measured : measureSlash rest = .ok (kind, n)) :
      Measured c rest kind n
  | word {kind : Kind} {n : Nat} (found : (kind, n) ∈ Match.wordMatches (c :: rest)) :
      Measured c rest kind (n - 1)
  | operator {kind : Kind} {n : Nat} (measured : measureOperator c rest = (kind, n)) :
      Measured c rest kind n
  | unrecognized : Measured c rest .unrecognized 0

theorem measured_of_measure {c : Char} {rest : List Char} {kind : Kind} {n : Nat}
    (h : measure c rest = .ok (kind, n)) :
  Measured c rest kind n
  := by
  cases opening c rest with
  | blank isBlank =>
      rw [measure_of_isBlank isBlank] at h
      obtain ⟨rfl, rfl⟩ := Prod.mk.inj (Except.ok.inj h)
      exact .whitespace isBlank
  | string isQuote closed =>
      rw [measure_string isQuote closed] at h
      obtain ⟨rfl, rfl⟩ := Prod.mk.inj (Except.ok.inj h)
      exact .string closed
  | openString isQuote endless => simp [measure_openString isQuote endless] at h
  | quoted closed =>
      rw [measure_quoted closed] at h
      obtain ⟨rfl, rfl⟩ := Prod.mk.inj (Except.ok.inj h)
      exact .quoted rfl closed
  | openQuoted endless =>
      rw [measure_openQuoted endless] at h
      obtain ⟨rfl, rfl⟩ := Prod.mk.inj (Except.ok.inj h)
      exact .unrecognized
  | dashes another =>
      obtain ⟨cs, rfl⟩ := List.head?_eq_some_iff.mp another
      obtain ⟨rfl, rfl⟩ := Prod.mk.inj (Except.ok.inj h)
      exact .lineComment rfl
  | slash => exact .slash h
  | word begins =>
      rw [measure_of_word begins] at h
      cases hfound : Match.longest? (Match.wordMatches (c :: rest)) with
      | none =>
          rw [hfound] at h
          obtain ⟨rfl, rfl⟩ := Prod.mk.inj (Except.ok.inj h)
          exact .unrecognized
      | some m =>
          rw [hfound] at h
          obtain ⟨rfl, rfl⟩ := Prod.mk.inj (Except.ok.inj h)
          exact .word (Match.longest?_mem hfound)
  | operator begins =>
      rw [measure_operator begins] at h
      exact .operator (Except.ok.inj h)

/-- Only strings and bracketed comments have to be closed. -/
theorem open_of_measure {c : Char} {rest : List Char} {cause : Cause}
    (h : measure c rest = .error cause) :
  (c = '\x27' ∨ c = '\x22') ∧ stringLength? c rest = none ∧ cause = .openString ∨
    c = '/' ∧ measureSlash rest = .error cause
  := by
  cases opening c rest with
  | openString isQuote endless =>
      rw [measure_openString isQuote endless] at h
      exact .inl ⟨isQuote, endless, (Except.error.inj h).symm⟩
  | slash => exact .inr ⟨rfl, h⟩
  | dashes another =>
      obtain ⟨cs, rfl⟩ := List.head?_eq_some_iff.mp another
      contradiction
  | blank isBlank => simp [measure_of_isBlank isBlank] at h
  | string isQuote closed => simp [measure_string isQuote closed] at h
  | quoted closed => simp [measure_quoted closed] at h
  | openQuoted endless => simp [measure_openQuoted endless] at h
  | word begins => simp [measure_of_word begins] at h
  | operator begins => simp [measure_operator begins] at h

/-- A token does not reach beyond the text. -/
theorem measure_le {c : Char} {rest : List Char} {kind : Kind} {n : Nat}
    (h : measure c rest = .ok (kind, n)) :
  n ≤ rest.length
  := by
  cases measured_of_measure h with
  | whitespace => apply Match.runLength_le
  | string closed => apply stringLength?_le closed
  | quoted _ closed => apply (take_backQuotedLength? closed).1
  | lineComment opened =>
      obtain ⟨cs, rfl⟩ : ∃ cs, rest = '-' :: cs := by
        cases rest <;> simp_all
      have := lineLength_le cs
      simp only [List.drop_one, List.tail_cons, List.length_cons]
      omega
  | slash measured => apply (of_measureSlash measured).1
  | word found =>
      have := (Match.of_mem_wordMatches found).2
      simp only [List.length_cons] at this
      omega
  | operator measured =>
      have := measureOperator_le c rest
      simp_all
  | unrecognized => simp

theorem measureOperator_kind (c : Char) (rest : List Char) :
  (measureOperator c rest).1 ≠ .eof ∧ (measureOperator c rest).1 ≠ .quotedIdentifier
  := by
  fun_cases measureOperator c rest <;> simp

/-- No token of a text is the one that ends it. -/
theorem kind_ne_eof_of_measure {c : Char} {rest : List Char} {kind : Kind} {n : Nat}
    (h : measure c rest = .ok (kind, n)) :
  kind ≠ .eof
  := by
  cases measured_of_measure h with
  | slash measured =>
      obtain rfl | rfl | rfl := (of_measureSlash measured).2 <;> simp
  | word found =>
      have := (Match.of_mem_wordMatches found).1
      rintro rfl
      simp [Kind.isWord] at this
  | operator measured =>
      have := (measureOperator_kind c rest).1
      simp_all
  | _ => simp

theorem closed_of_measure {c : Char} {rest : List Char} {n : Nat}
    (h : measure c rest = .ok (.quotedIdentifier, n)) :
  c = '\x60' ∧ backQuotedLength? rest = some n
  := by
  cases measured_of_measure h with
  | quoted opened closed => exact ⟨opened, closed⟩
  | slash measured => simpa using (of_measureSlash measured).2
  | word found => simpa [Kind.isWord] using (Match.of_mem_wordMatches found).1
  | operator measured => simpa [measured] using (measureOperator_kind c rest).2

/-- A back-quoted name stands between back-quotes, with those inside it doubled. -/
theorem eq_backQuote_of_measure {c : Char} {rest : List Char} {n : Nat}
    (h : measure c rest = .ok (.quotedIdentifier, n)) :
  ∃ name, c :: rest.take n = '\x60' :: Text.doubleBackQuotes name ++ ['\x60']
  := by
  obtain ⟨rfl, hclosed⟩ := closed_of_measure h
  obtain ⟨name, hname⟩ := (take_backQuotedLength? hclosed).2
  use name
  rw [hname]
  rfl

end Token

/-! ### Taking a token -/

namespace Cursor

variable {x : Char} {cs : List Char} {p : Position} {t : Token} {d : Cursor} {e : Fault}

theorem next_of_measure {kind : Kind} {n : Nat} (p : Position)
    (h : Token.measure x cs = .ok (kind, n)) :
  next ⟨x :: cs, p⟩ = .ok (⟨kind, Token.textOf kind ((x :: cs).take (n + 1)), p,
    (skip ⟨x :: cs, p⟩ (n + 1)).position⟩, skip ⟨x :: cs, p⟩ (n + 1))
  := by
  simp only [next, h]

/-- What is taken at a character is the token that is measured there. -/
theorem next_cons_eq_ok_iff :
  next ⟨x :: cs, p⟩ = .ok (t, d) ↔ ∃ kind n, Token.measure x cs = .ok (kind, n) ∧
    ⟨kind, Token.textOf kind ((x :: cs).take (n + 1)), p,
      (skip ⟨x :: cs, p⟩ (n + 1)).position⟩ = t ∧ skip ⟨x :: cs, p⟩ (n + 1) = d
  := by
  cases hfound : Token.measure x cs with
  | error cause => simp [next, hfound]
  | ok found =>
      obtain ⟨kind, n⟩ := found
      rw [next_of_measure p hfound]
      simp [Prod.mk.injEq]

theorem next_cons_eq_error_iff :
  next ⟨x :: cs, p⟩ = .error e ↔ ∃ cause, Token.measure x cs = .error cause ∧
    ⟨cause, p, p.right (openingLength cause)⟩ = e
  := by
  cases hfound : Token.measure x cs <;> simp [next, hfound]

end Cursor

end SqlFront
