import SqlFront.Proofs.Tokens.Measure

/-!
# Tokens before blanks

What a text begins with does not depend on what follows a blank behind it: no rule for tokens looks
beyond the first character that it does not take, strings and bracketed comments are closed inside
the text, and a back-quoted name ends where it ends as long as no back-quote is left open behind it.
Only white space and line comments may take the blank along.
-/

namespace SqlFront

/-! ### Words and numbers -/

namespace Match

open Token (isBlank)

theorem eq_of_isBlank {d : Char} (hd : isBlank d) :
  d = ' ' ∨ d = '\t' ∨ d = '\n' ∨ d = '\r'
  := by
  simpa [isBlank, or_assoc] using hd

theorem isWordChar_of_isBlank {d : Char} (hd : isBlank d) :
  isWordChar d = false
  := by
  rcases eq_of_isBlank hd with rfl | rfl | rfl | rfl <;> rfl

theorem isJobChar_of_isBlank {d : Char} (hd : isBlank d) :
  isJobChar d = false
  := by
  rcases eq_of_isBlank hd with rfl | rfl | rfl | rfl <;> rfl

theorem isDigit_of_isBlank {d : Char} (hd : isBlank d) :
  d.isDigit = false
  := by
  rcases eq_of_isBlank hd with rfl | rfl | rfl | rfl <;> rfl

theorem toUpper_of_isBlank {d : Char} (hd : isBlank d) :
  d.toUpper = d
  := by
  rcases eq_of_isBlank hd with rfl | rfl | rfl | rfl <;> rfl

section

variable {d : Char} (cs rest : List Char)

theorem takeWhile_blank {p : Char → Bool} (hp : p d = false) :
  (cs ++ d :: rest).takeWhile p = cs.takeWhile p
  := by
  induction cs with
  | nil => simp [hp]
  | cons c cs ih => simp [List.takeWhile_cons, ih]

theorem runLength_blank {p : Char → Bool} (hp : p d = false) :
  runLength p (cs ++ d :: rest) = runLength p cs
  := by
  rw [runLength, takeWhile_blank cs rest hp, runLength]

theorem drop_blank {n : Nat} (hn : n ≤ cs.length) :
  (cs ++ d :: rest).drop n = cs.drop n ++ d :: rest
  := List.drop_append_of_le_length hn

end

theorem signLength_le (cs : List Char) :
  signLength cs ≤ cs.length
  := by
  cases cs with
  | nil => exact Nat.le_refl 0
  | cons c cs =>
      rw [signLength_cons]
      split <;> simp

variable {d : Char} (hd : isBlank d) (cs rest : List Char)

include hd

theorem exponentLength?_blank :
  exponentLength? (cs ++ d :: rest) = exponentLength? cs
  := by
  cases cs with
  | nil =>
      simp only [List.nil_append, exponentLength?]
      rw [if_neg]
      rw [toUpper_of_isBlank hd]
      rintro ⟨rfl, -⟩
      contradiction
  | cons c cs =>
      have hsign : signLength (cs ++ d :: rest) = signLength cs := by
        cases cs with
        | nil =>
            rw [List.nil_append, signLength_cons, if_neg]
            · rfl
            · rintro (rfl | rfl) <;> contradiction
        | cons e cs => rw [List.cons_append, signLength_cons, signLength_cons]
      simp only [List.cons_append, exponentLength?, hsign, drop_blank cs rest (signLength_le cs),
        runLength_blank _ rest (isDigit_of_isBlank hd)]

theorem withExponent_blank {base : Nat} (hbase : base ≤ cs.length) :
  withExponent (cs ++ d :: rest) base = withExponent cs base
  := by
  rw [withExponent, drop_blank cs rest hbase, exponentLength?_blank hd, withExponent]

theorem digitEnds_blank :
  digitEnds (cs ++ d :: rest) = digitEnds cs
  := by
  rw [digitEnds, runLength_blank _ rest (isDigit_of_isBlank hd), digitEnds]

theorem pointEnds_blank :
  pointEnds (cs ++ d :: rest) = pointEnds cs
  := by
  simp only [pointEnds, runLength_blank _ rest (isDigit_of_isBlank hd),
    drop_blank cs rest (runLength_le Char.isDigit cs)]
  cases cs.drop (runLength Char.isDigit cs) with
  | nil =>
      have hpoint : d ≠ '.' := by
        rintro rfl
        contradiction
      simp [hpoint]
  | cons c fraction =>
      by_cases hc : c = '.'
      · subst hc
        simp [runLength_blank _ rest (isDigit_of_isBlank hd)]
      · simp [hc]

theorem startsWithSuffix_blank {suffix : List Char} (hsuffix : d ∉ suffix) :
  startsWithSuffix suffix (cs ++ d :: rest) = startsWithSuffix suffix cs
  := by
  rw [startsWithSuffix, startsWithSuffix, List.take_append]
  rcases Nat.lt_or_ge cs.length suffix.length with hlt | hge
  · obtain ⟨n, hn⟩ : ∃ n, suffix.length - cs.length = n + 1 :=
      ⟨suffix.length - cs.length - 1, by omega⟩
    have hwith : (cs.take suffix.length ++ (d :: rest).take (n + 1)).map Char.toUpper ≠ suffix := by
      rintro h
      apply hsuffix
      rw [← h]
      simp [toUpper_of_isBlank hd]
    have hwithout : (cs.take suffix.length).map Char.toUpper ≠ suffix := by
      intro h
      have hlength := congrArg List.length h
      simp only [List.length_map, List.length_take] at hlength
      omega
    rw [hn, beq_eq_false_iff_ne.mpr hwith, beq_eq_false_iff_ne.mpr hwithout]
  · rw [Nat.sub_eq_zero_of_le hge, List.take_zero, List.append_nil]

theorem suffixed_blank {form : NumberForm} {suffix : List Char} {ends : List Nat}
    (hsuffix : d ∉ suffix) (hends : ∀ n ∈ ends, n ≤ cs.length) :
  suffixed form suffix (cs ++ d :: rest) ends = suffixed form suffix cs ends
  := by
  have hfilter : (ends.filter fun n => startsWithSuffix suffix ((cs ++ d :: rest).drop n)) =
      ends.filter fun n => startsWithSuffix suffix (cs.drop n) := by
    apply List.filter_congr
    intro n hn
    rw [drop_blank cs rest (hends n hn), startsWithSuffix_blank hd _ rest hsuffix]
  rw [suffixed, hfilter, suffixed]

omit hd in
theorem endsWord_blank (hcs : cs ≠ []) :
  endsWord (cs ++ d :: rest) = endsWord cs
  := by
  cases cs with
  | nil => contradiction
  | cons c cs => rfl

theorem closed_blank {found : List Match} (hfound : ∀ m ∈ found, m.2 ≤ cs.length) :
  closed (cs ++ d :: rest) found = closed cs found
  := by
  apply List.filter_congr
  intro m hm
  rw [drop_blank cs rest (hfound m hm)]
  cases cs.drop m.2 with
  | nil => simp [endsWord, isWordChar_of_isBlank hd]
  | cons c cs => rfl

/-- The numbers that a word may begin with do not depend on what follows a blank behind it. -/
theorem numberMatches_blank :
  numberMatches (cs ++ d :: rest) = numberMatches cs
  := by
  have hdigits : ∀ n ∈ digitEnds cs, n ≤ cs.length := fun _ => digitEnds_le
  have hpoints : ∀ n ∈ pointEnds cs, n ≤ cs.length := fun _ => pointEnds_le
  have hexponent : ∀ {ends : List Nat}, (∀ n ∈ ends, n ≤ cs.length) →
      ends.flatMap (withExponent (cs ++ d :: rest)) = ends.flatMap (withExponent cs) := by
    intro ends hends
    apply List.flatMap_congr
    intro n hn
    apply withExponent_blank hd cs rest (hends n hn)
  have hwhole : ∀ {ends : List Nat}, (∀ n ∈ ends, n ≤ cs.length) →
      ∀ n ∈ ends.flatMap (withExponent cs), n ≤ cs.length := by
    intro ends hends n hn
    obtain ⟨base, hbase, hn⟩ := List.mem_flatMap.mp hn
    apply withExponent_le (hends base hbase) hn
  have hmark : ∀ mark, isBlank mark = false → d ≠ mark := by
    rintro mark hmark rfl
    rw [hd] at hmark
    contradiction
  have hone : ∀ mark, isBlank mark = false → d ∉ [mark] := by
    intro mark h
    simpa using hmark mark h
  have htwo : d ∉ ['B', 'D'] := by
    simp [hmark 'B' rfl, hmark 'D' rfl]
  have hclosed : ∀ form suffix, d ∉ suffix →
      closed (cs ++ d :: rest) (suffixed form suffix cs ((pointEnds cs).flatMap (withExponent cs))) =
        closed cs (suffixed form suffix cs ((pointEnds cs).flatMap (withExponent cs))) := by
    intro form suffix hsuffix
    apply closed_blank hd
    intro m hm
    exact (of_mem_suffixed (hwhole hpoints) hm).2
  have hdecimals : closed (cs ++ d :: rest)
      (decimals ((pointEnds cs).flatMap (withExponent cs))) =
        closed cs (decimals ((pointEnds cs).flatMap (withExponent cs))) := by
    apply closed_blank hd
    intro m hm
    obtain ⟨n, hn, rfl⟩ := List.mem_map.mp hm
    exact hwhole hpoints n hn
  have hunits : (['B', 'K', 'M', 'G'].flatMap fun unit =>
      suffixed .byteLength [unit] (cs ++ d :: rest) (digitEnds cs)) =
        ['B', 'K', 'M', 'G'].flatMap fun unit => suffixed .byteLength [unit] cs (digitEnds cs) := by
    apply List.flatMap_congr
    intro unit hunit
    apply suffixed_blank hd cs rest (hone unit _) hdigits
    simp only [List.mem_cons, List.not_mem_nil, or_false] at hunit
    rcases hunit with rfl | rfl | rfl | rfl <;> rfl
  simp only [numberMatches, digitEnds_blank hd, pointEnds_blank hd, hexponent hdigits,
    hexponent hpoints, hunits, hdecimals]
  rw [suffixed_blank hd cs rest (hone _ rfl) hdigits,
    suffixed_blank hd cs rest (hone _ rfl) hdigits,
    suffixed_blank hd cs rest (hone _ rfl) hdigits,
    suffixed_blank hd cs rest (hone _ rfl) (hwhole hdigits),
    suffixed_blank hd cs rest (hone _ rfl) (hwhole hpoints),
    suffixed_blank hd cs rest htwo (hwhole hdigits),
    suffixed_blank hd cs rest htwo (hwhole hpoints), hclosed _ _ (hone _ rfl),
    hclosed _ _ htwo]

/-- What a word may begin with does not depend on what follows a blank behind it. -/
theorem wordMatches_blank (hcs : cs ≠ []) :
  wordMatches (cs ++ d :: rest) = wordMatches cs
  := by
  have hdot : dotMatches (cs ++ d :: rest) = dotMatches cs := by
    obtain ⟨c, cs, rfl⟩ := List.exists_cons_of_ne_nil hcs
    by_cases hc : c = '.'
    · subst hc
      rfl
    · simp [dotMatches, hc]
  simp only [wordMatches, keywordMatches, nameMatches, numberMatches_blank hd, hdot,
    endsWord_blank cs rest hcs, takeWhile_blank cs rest (isWordChar_of_isBlank hd),
    runLength_blank cs rest (isWordChar_of_isBlank hd),
    runLength_blank cs rest (isJobChar_of_isBlank hd)]

end Match

/-! ### Texts, names, comments and operators -/

namespace Token

variable {cs : List Char} (rest : List Char) {d : Char} {n : Nat}

theorem stringLength?_cons {quote c : Char} (hc : c ≠ '\\') (cs : List Char) :
  stringLength? quote (c :: cs) = if c = quote then some 1 else (stringLength? quote cs).map (· + 1)
  := by
  rw [stringLength?.eq_def]
  split <;> simp_all

theorem ne_backslash {c : Char} {cs : List Char} (hempty : c = '\\' → cs = [] → False)
    (hescape : ∀ d ds, c = '\\' → cs = d :: ds → False) :
  c ≠ '\\'
  := by
  intro hc
  cases cs with
  | nil => exact hempty hc rfl
  | cons d cs => exact hescape d cs hc rfl

theorem stringLength?_append {quote : Char} (h : stringLength? quote cs = some n) :
  stringLength? quote (cs ++ rest) = some n
  := by
  fun_induction stringLength? quote cs generalizing n with
  | case1 => simp at h
  | case2 => simp at h
  | case3 c cs ih =>
      obtain ⟨m, hm, rfl⟩ := Option.map_eq_some_iff.mp h
      simp [stringLength?, ih hm]
  | case4 cs hempty hescape =>
      rw [List.cons_append, stringLength?_cons (ne_backslash hempty hescape), if_pos rfl, h]
  | case5 c cs hempty hescape hquote ih =>
      obtain ⟨m, hm, rfl⟩ := Option.map_eq_some_iff.mp h
      rw [List.cons_append, stringLength?_cons (ne_backslash hempty hescape), if_neg hquote, ih hm]
      rfl

/-- A name behind which no back-quote is left open ends where it ends before a blank as well. -/
theorem backQuotedLength?_blank (hd : isBlank d) (h : backQuotedLength? cs = some n)
    (hopen : ∀ tail, cs.drop n = '\x60' :: tail → backQuotedLength? tail ≠ none) :
  backQuotedLength? (cs ++ d :: rest) = some n
  := by
  have hquote : d ≠ '\x60' := by
    rintro rfl
    contradiction
  fun_induction backQuotedLength? cs generalizing n with
  | case1 => contradiction
  | case2 cs ih =>
      cases hrest : backQuotedLength? cs with
      | none =>
          simp only [hrest, Option.elim_none, Option.some.injEq] at h
          exact absurd hrest (hopen cs (by simp [← h]))
      | some m =>
          simp only [hrest, Option.elim_some, Option.some.injEq] at h
          subst h
          simp [backQuotedLength?, ih hrest (by simpa using hopen)]
  | case3 cs hcs =>
      cases cs with
      | nil => simpa [backQuotedLength?, hquote] using h
      | cons c cs =>
          have hc : c ≠ '\x60' := fun hc => hcs cs (by rw [hc])
          simpa [backQuotedLength?, hc] using h
  | case4 c cs hdouble hc ih =>
      obtain ⟨m, hm, rfl⟩ := Option.map_eq_some_iff.mp h
      have hc' : c ≠ '\x60' := by
        rintro rfl
        exact hc rfl
      simp [backQuotedLength?, hc', ih hm (by simpa using hopen)]

theorem commentLength?_append (h : commentLength? cs = some n) :
  commentLength? (cs ++ rest) = some n
  := by
  fun_induction commentLength? cs generalizing n with
  | case1 => simpa [commentLength?] using h
  | case2 c cs hend ih =>
      obtain ⟨m, hm, rfl⟩ := Option.map_eq_some_iff.mp h
      cases cs with
      | nil => contradiction
      | cons e cs =>
          have hend' : ∀ tail, c = '*' → e :: cs ++ rest = '/' :: tail → False := by
            intro tail hc htail
            exact hend cs hc (by rw [(List.cons.inj htail).1])
          rw [List.cons_append, commentLength?, ih hm]
          · rfl
          · exact hend'
  | case3 => contradiction

/-- A comment that has an end is the same before a blank, and so is a slash alone. -/
theorem measureSlash_blank {kind : Kind} (hd : isBlank d) (h : measureSlash cs = .ok (kind, n)) :
  measureSlash (cs ++ d :: rest) = .ok (kind, n)
  := by
  unfold measureSlash at h
  split at h
  · exact h
  · exact h
  · next c cs hempty hhint =>
      split at h
      · next m hm =>
          cases cs with
          | nil => contradiction
          | cons e cs =>
              have hlength := commentLength?_append (d :: rest) hm
              unfold measureSlash
              split <;> simp_all
      · contradiction
  · contradiction
  · next hstar =>
      cases cs with
      | nil =>
          have hc : d ≠ '*' := by
            rintro rfl
            contradiction
          simpa [measureSlash, hc] using h
      | cons c cs =>
          have hc : c ≠ '*' := by
            rintro rfl
            cases cs <;> simp_all
          simpa [measureSlash, hc] using h

theorem measureOperator_cons {c x : Char} (h : ¬ (c = '<' ∧ x = '=')) (cs : List Char) :
  measureOperator c (x :: cs) = measureOperator c [x]
  := by
  unfold measureOperator
  split <;> simp_all

/-- Operators have three characters at most. -/
theorem measureOperator_cons_cons (c x y : Char) (cs : List Char) :
  measureOperator c (x :: y :: cs) = measureOperator c [x, y]
  := by
  by_cases h : c = '<' ∧ x = '='
  · obtain ⟨rfl, rfl⟩ := h
    by_cases hy : y = '>'
    · subst hy
      rfl
    · simp [measureOperator, hy]
  · rw [measureOperator_cons h, measureOperator_cons h [y]]

theorem measureOperator_blank (hd : isBlank d) (c : Char) :
  measureOperator c (cs ++ d :: rest) = measureOperator c cs
  := by
  have hmark : ∀ mark, isBlank mark = false → d ≠ mark := by
    rintro mark hmark rfl
    rw [hd] at hmark
    contradiction
  have heq := hmark '=' rfl
  have hgt := hmark '>' rfl
  have hlt := hmark '<' rfl
  rcases cs with _ | ⟨x, _ | ⟨y, cs⟩⟩
  · unfold measureOperator
    split <;> simp_all
  · unfold measureOperator
    split <;> simp_all
  · rw [List.cons_append, List.cons_append, measureOperator_cons_cons,
      measureOperator_cons_cons c x y cs]

/-- A visible token does not begin with a blank. -/
theorem not_isBlank_of_measure {c : Char} {cs : List Char} {kind : Kind} {n : Nat}
    (h : measure c cs = .ok (kind, n)) (hkind : kind.isHidden = false) :
  isBlank c = false
  := by
  by_contra hblank
  rw [measure_of_isBlank (by simpa using hblank)] at h
  obtain ⟨rfl, -⟩ := Prod.mk.inj (Except.ok.inj h)
  contradiction

/-- A token other than white space and line comments is the same before a blank, if no back-quote is
left open behind it. -/
theorem measure_blank {c : Char} {kind : Kind} (hd : isBlank d) (h : measure c cs = .ok (kind, n))
    (hblank : ¬ isBlank c) (hline : ¬ (c = '-' ∧ cs.head? = some '-')) (hvalid : kind ≠ .unrecognized)
    (hopen : kind = .quotedIdentifier → ∀ tail, cs.drop n = '\x60' :: tail →
      backQuotedLength? tail ≠ none) :
  measure c (cs ++ d :: rest) = .ok (kind, n)
  := by
  cases opening c cs with
  | blank isBlank => contradiction
  | string isQuote closed =>
      rw [← h, measure_string isQuote closed]
      exact measure_string isQuote (stringLength?_append (d :: rest) closed)
  | openString isQuote endless => simp [measure_openString isQuote endless] at h
  | quoted closed =>
      rw [measure_quoted closed] at h
      obtain ⟨rfl, rfl⟩ := Prod.mk.inj (Except.ok.inj h)
      exact measure_quoted (backQuotedLength?_blank rest hd closed (hopen rfl))
  | openQuoted endless =>
      rw [measure_openQuoted endless] at h
      exact absurd (Prod.mk.inj (Except.ok.inj h)).1.symm hvalid
  | dashes another => exact absurd ⟨rfl, another⟩ hline
  | slash => exact measureSlash_blank rest hd h
  | word begins =>
      rw [measure_of_word begins] at h ⊢
      rw [← List.cons_append, Match.wordMatches_blank hd _ rest (List.cons_ne_nil c cs), h]
  | operator begins =>
      rw [measure_operator begins] at h
      rw [measure_operator, measureOperator_blank rest hd, h]
      apply begins.congr
      intro hc
      cases cs with
      | nil =>
          rintro hhead
          obtain rfl := Option.some.inj hhead
          contradiction
      | cons e cs => simpa [hc] using hline

/-- A visible token that a text consists of is the same before a blank. -/
theorem measure_whole_blank {c : Char} {kind : Kind} (hd : isBlank d)
    (h : measure c cs = .ok (kind, cs.length)) (hhidden : kind.isHidden = false)
    (hvalid : kind ≠ .unrecognized) :
  measure c (cs ++ d :: rest) = .ok (kind, cs.length)
  := by
  apply measure_blank rest hd h
  · simp [not_isBlank_of_measure h hhidden]
  · rintro ⟨rfl, hhead⟩
    obtain ⟨cs, rfl⟩ := List.head?_eq_some_iff.mp hhead
    rw [measure_dashes, Except.ok.injEq, Prod.mk.injEq] at h
    rw [← h.1] at hhidden
    contradiction
  · exact hvalid
  · rintro - tail htail
    simp at htail

end Token

end SqlFront
