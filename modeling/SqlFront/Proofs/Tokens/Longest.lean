import SqlFront.Proofs.Tokens.Measure
import SqlFront.Proofs.Tokens.Words

/-!
# The rules for words and numbers

Where a word or a number may begin, the rules say which characters may stand there and, for some
numbers, what may not follow them (`WordRule`), in whatever way these characters are made up.
Everything that is measured there is an instance of a rule, and every instance of a rule is
measured or is shorter than something measured.  So the next token is the longest instance of any
rule, and of equally long ones that of the earliest rule (`Cursor.next_longest`).
-/

namespace SqlFront

/-! ### The rules -/

namespace Match

/-- One or more digits. -/
def Digits (w : List Char) : Prop := w ≠ [] ∧ ∀ c ∈ w, c.isDigit

/-- One or more characters of words. -/
def Word (w : List Char) : Prop := w ≠ [] ∧ ∀ c ∈ w, isWordChar c

/-- Digits with a point behind them or among them, or a point and digits. -/
inductive Pointed : List Char → Prop where
  | behind {whole places : List Char} (isWhole : Digits whole)
      (arePlaces : ∀ c ∈ places, c.isDigit) : Pointed (whole ++ '.' :: places)
  | bare {places : List Char} (arePlaces : Digits places) : Pointed ('.' :: places)

/-- An exponent: the letter in either case, a sign or none, and digits. -/
inductive Exponent : List Char → Prop where
  | intro {letter : Char} {sign digits : List Char} (isLetter : letter.toUpper = 'E')
      (isSign : sign = [] ∨ sign = ['+'] ∨ sign = ['-']) (areDigits : Digits digits) :
      Exponent (letter :: (sign ++ digits))

/-- An exponent or nothing. -/
inductive Scale : List Char → Prop where
  | none : Scale []
  | some {w : List Char} (isExponent : Exponent w) : Scale w

/-- The numbers of each form, and what may follow them: numbers with a point end where no word
goes on.  The letters that mark a form stand in either case. -/
inductive NumberRule : NumberForm → List Char → List Char → Prop where
  | bigInt {ds after : List Char} {l : Char} (digits : Digits ds) (mark : l.toUpper = 'L') :
      NumberRule .bigInt (ds ++ [l]) after
  | smallInt {ds after : List Char} {l : Char} (digits : Digits ds) (mark : l.toUpper = 'S') :
      NumberRule .smallInt (ds ++ [l]) after
  | tinyInt {ds after : List Char} {l : Char} (digits : Digits ds) (mark : l.toUpper = 'Y') :
      NumberRule .tinyInt (ds ++ [l]) after
  | byteLength {ds after : List Char} {l : Char} (digits : Digits ds)
      (mark : l.toUpper ∈ ['B', 'K', 'M', 'G']) : NumberRule .byteLength (ds ++ [l]) after
  | integer {ds after : List Char} (digits : Digits ds) : NumberRule .integer ds after
  | decimal {ds e after : List Char} (digits : Digits ds) (exponent : Exponent e) :
      NumberRule .decimal (ds ++ e) after
  | pointDecimal {p e after : List Char} (point : Pointed p) (scale : Scale e)
      (ends : endsWord after) : NumberRule .decimal (p ++ e) after
  | double {ds e after : List Char} {l : Char} (digits : Digits ds) (scale : Scale e)
      (mark : l.toUpper = 'D') : NumberRule .double (ds ++ e ++ [l]) after
  | pointDouble {p e after : List Char} {l : Char} (point : Pointed p) (scale : Scale e)
      (mark : l.toUpper = 'D') (ends : endsWord after) : NumberRule .double (p ++ e ++ [l]) after
  | bigDecimal {ds e after : List Char} {l m : Char} (digits : Digits ds) (scale : Scale e)
      (mark : l.toUpper = 'B') (mark' : m.toUpper = 'D') :
      NumberRule .bigDecimal (ds ++ e ++ [l, m]) after
  | pointBigDecimal {p e after : List Char} {l m : Char} (point : Pointed p) (scale : Scale e)
      (mark : l.toUpper = 'B') (mark' : m.toUpper = 'D') (ends : endsWord after) :
      NumberRule .bigDecimal (p ++ e ++ [l, m]) after

/-- The characters that the rules for words and numbers find a token in, and what may follow
them. -/
inductive WordRule : Kind → List Char → List Char → Prop where
  | keyword {k : Keyword} {w after : List Char} (word : Word w)
      (spells : Keyword.lookup? (String.ofList w) = some k) : WordRule (.keyword k) w after
  | number {form : NumberForm} {w after : List Char} (isNumber : NumberRule form w after) :
      WordRule (.number form) w after
  | identifier {w after : List Char} (word : Word w) : WordRule .identifier w after
  | jobIdentifier {c : Char} {cs after : List Char} (first : isWordChar c)
      (others : ∀ d ∈ cs, isJobChar d) : WordRule .jobIdentifier (c :: cs) after
  | dot {after : List Char} : WordRule .dot ['.'] after

theorem NumberRule.ne_nil {form : NumberForm} {w after : List Char}
    (h : NumberRule form w after) :
  w ≠ []
  := by
  cases h with
  | integer digits => exact digits.1
  | pointDecimal point => cases point <;> simp
  | decimal digits => simp [digits.1]
  | _ => simp

end Match

/-- The place of the rule for numbers of a form among the rules. -/
def NumberForm.rank : NumberForm → Nat
  | bigInt => 1
  | smallInt => 2
  | tinyInt => 3
  | byteLength => 4
  | integer => 5
  | decimal => 6
  | double => 7
  | bigDecimal => 8

/-- The place of the rule for tokens of a kind among the rules for words and numbers. -/
def Kind.rank : Kind → Nat
  | keyword _ => 0
  | number form => form.rank
  | identifier => 9
  | jobIdentifier => 10
  | _ => 11

theorem NumberForm.rank_pos (form : NumberForm) :
  0 < form.rank
  := by
  cases form <;> decide

theorem NumberForm.rank_le (form : NumberForm) :
  form.rank ≤ 8
  := by
  cases form <;> decide

theorem NumberForm.eq_of_rank_eq {form form' : NumberForm} (h : form.rank = form'.rank) :
  form = form'
  := by
  cases form <;> cases form' <;> first | rfl | contradiction

namespace Match

/-! ### The first of the longest matches -/

theorem longest?_eq_none {found : List Match} (h : longest? found = none) :
  found = []
  := by
  cases found with
  | nil => rfl
  | cons first others =>
      rw [longest?] at h
      split at h <;> contradiction

/-- Before the longest match stand only shorter ones, and behind it none that is longer. -/
theorem exists_of_longest? {found : List Match} {best : Match} (h : longest? found = some best) :
  ∃ before after, found = before ++ best :: after ∧ (∀ m ∈ before, m.2 < best.2) ∧
    ∀ m ∈ after, m.2 ≤ best.2
  := by
  induction found generalizing best with
  | nil => contradiction
  | cons first others ih =>
      rw [longest?] at h
      cases hothers : longest? others with
      | none =>
          rw [hothers] at h
          obtain rfl := Option.some.inj h
          exact ⟨[], others, rfl, by simp, by simp [longest?_eq_none hothers]⟩
      | some next =>
          obtain ⟨before, after, rfl, hbefore, hafter⟩ := ih hothers
          simp only [hothers, Option.some.injEq] at h
          split at h
          · next hlt =>
              subst h
              refine ⟨first :: before, after, rfl, ?_, hafter⟩
              simpa [hlt] using hbefore
          · next hle =>
              subst h
              refine ⟨[], before ++ next :: after, rfl, by simp, ?_⟩
              intro m hm
              rcases List.mem_append.mp hm with hm | hm
              · have := hbefore m hm
                omega
              · rcases List.mem_cons.mp hm with rfl | hm
                · omega
                · have := hafter m hm
                  omega

/-! ### The order of the rules -/

/-- Matches in the order of their rules, the places of which lie between two bounds. -/
structure Ranked (low high : Nat) (found : List Match) : Prop where
  le : low ≤ high
  pairwise : found.Pairwise fun m m' => m.1.rank ≤ m'.1.rank
  bounds : ∀ m ∈ found, low ≤ m.1.rank ∧ m.1.rank ≤ high

section

variable {low middle middle' high : Nat} {found found' : List Match}

theorem Ranked.append (h : Ranked low middle found) (h' : Ranked middle' high found')
    (hle : middle ≤ middle') :
  Ranked low high (found ++ found')
  := by
  have hlow := h.le
  have hhigh := h'.le
  constructor
  · omega
  · apply List.pairwise_append.mpr ⟨h.pairwise, h'.pairwise, _⟩
    intro m hm m' hm'
    have := h.bounds m hm
    have := h'.bounds m' hm'
    omega
  · intro m hm
    rcases List.mem_append.mp hm with hm | hm
    · have := h.bounds m hm
      omega
    · have := h'.bounds m hm
      omega

theorem Ranked.of_eq {r : Nat} (h : ∀ m ∈ found, m.1.rank = r) :
  Ranked r r found
  := by
  constructor
  · apply Nat.le_refl
  · apply List.pairwise_of_forall_mem_list
    intro m hm m' hm'
    exact Nat.le_of_eq ((h m hm).trans (h m' hm').symm)
  · intro m hm
    simp [h m hm]

theorem Ranked.closed (h : Ranked low high found) (cs : List Char) :
  Ranked low high (closed cs found)
  := ⟨h.le, h.pairwise.filter _, fun m hm => h.bounds m (List.mem_filter.mp hm).1⟩

end

variable (cs : List Char)

theorem ranked_suffixed (form : NumberForm) (suffix : List Char) (ends : List Nat) :
  Ranked form.rank form.rank (suffixed form suffix cs ends)
  := by
  apply Ranked.of_eq
  intro m hm
  obtain ⟨n, -, rfl⟩ := List.mem_map.mp hm
  rfl

theorem ranked_decimals (ends : List Nat) :
  Ranked 6 6 (decimals ends)
  := by
  apply Ranked.of_eq
  intro m hm
  obtain ⟨n, -, rfl⟩ := List.mem_map.mp hm
  rfl

theorem ranked_numberMatches :
  Ranked 1 8 (numberMatches cs)
  := by
  have hbytes : Ranked 4 4 (['B', 'K', 'M', 'G'].flatMap fun unit =>
      suffixed .byteLength [unit] cs (digitEnds cs)) := by
    apply Ranked.of_eq
    intro m hm
    obtain ⟨unit, -, hm⟩ := List.mem_flatMap.mp hm
    obtain ⟨n, -, rfl⟩ := List.mem_map.mp hm
    rfl
  have hintegers : Ranked 5 5 ((digitEnds cs).map fun n => (.number .integer, n)) := by
    apply Ranked.of_eq
    intro m hm
    obtain ⟨n, -, rfl⟩ := List.mem_map.mp hm
    rfl
  have hsuffixed := ranked_suffixed cs
  rw [numberMatches]
  apply Ranked.append _ ((hsuffixed .bigDecimal _ _).closed cs) (Nat.le_refl 8)
  apply Ranked.append _ (hsuffixed .bigDecimal _ _) (Nat.le_succ 7)
  apply Ranked.append _ ((hsuffixed .double _ _).closed cs) (Nat.le_refl 7)
  apply Ranked.append _ (hsuffixed .double _ _) (Nat.le_succ 6)
  apply Ranked.append _ ((ranked_decimals _).closed cs) (Nat.le_refl 6)
  apply Ranked.append _ (ranked_decimals _) (Nat.le_succ 5)
  apply Ranked.append _ hintegers (Nat.le_succ 4)
  apply Ranked.append _ hbytes (Nat.le_succ 3)
  apply Ranked.append _ (hsuffixed .tinyInt _ _) (Nat.le_succ 2)
  apply Ranked.append (hsuffixed .bigInt _ _) (hsuffixed .smallInt _ _) (Nat.le_succ 1)

/-- The matches stand in the order of their rules. -/
theorem ranked_wordMatches :
  Ranked 0 11 (wordMatches cs)
  := by
  have hkeywords : Ranked 0 0 (keywordMatches cs) := by
    apply Ranked.of_eq
    intro m hm
    simp only [keywordMatches] at hm
    split at hm
    · obtain rfl := List.mem_singleton.mp hm
      rfl
    · contradiction
  have hnames : ∀ kind p, Ranked kind.rank kind.rank (nameMatches kind p cs) := by
    intro kind p
    apply Ranked.of_eq
    intro m hm
    rw [nameMatches] at hm
    split at hm
    · contradiction
    · obtain rfl := List.mem_singleton.mp hm
      rfl
  have hdots : Ranked 11 11 (dotMatches cs) := by
    apply Ranked.of_eq
    intro m hm
    unfold dotMatches at hm
    split at hm
    · obtain rfl := List.mem_singleton.mp hm
      rfl
    · contradiction
  rw [wordMatches]
  apply Ranked.append _ hdots (Nat.le_succ 10)
  apply Ranked.append _ (hnames .jobIdentifier _) (Nat.le_succ 9)
  apply Ranked.append _ (hnames .identifier _) (Nat.le_succ 8)
  apply Ranked.append hkeywords (ranked_numberMatches cs) (Nat.le_succ 0)

/-! ### What is measured is an instance of a rule -/

section

variable {cs : List Char} {n base : Nat} {form : NumberForm} {suffix : List Char} {ends : List Nat}
  {m : Match}

theorem take_runLength (p : Char → Bool) (cs : List Char) :
  cs.take (runLength p cs) = cs.takeWhile p
  := (List.prefix_iff_eq_take.mp (List.takeWhile_prefix p)).symm

theorem forall_mem_take_runLength (p : Char → Bool) (cs : List Char) :
  ∀ c ∈ cs.take (runLength p cs), p c
  := by
  rw [take_runLength]
  apply List.all_eq_true.mp List.all_takeWhile

theorem digits_take_runLength (h : runLength Char.isDigit cs ≠ 0) :
  Digits (cs.take (runLength Char.isDigit cs))
  := by
  refine ⟨?_, forall_mem_take_runLength Char.isDigit cs⟩
  rw [take_runLength]
  apply List.ne_nil_of_length_pos (Nat.pos_of_ne_zero h)

theorem digits_of_mem_digitEnds (h : n ∈ digitEnds cs) :
  Digits (cs.take n)
  := by
  simp only [digitEnds] at h
  split at h
  · contradiction
  · next hne =>
      rw [List.mem_singleton.mp h]
      apply digits_take_runLength hne

/-- Without a point there is at most one place where the digits end. -/
theorem digitEnds_eq (cs : List Char) :
  digitEnds cs = [] ∨ ∃ n, digitEnds cs = [n]
  := by
  simp only [digitEnds]
  split
  · apply Or.inl rfl
  · exact .inr ⟨_, rfl⟩

theorem pointed_of_mem_pointEnds (h : n ∈ pointEnds cs) :
  Pointed (cs.take n)
  := by
  simp only [pointEnds] at h
  split at h
  · next fraction hfraction =>
      split at h
      · contradiction
      · next hne =>
          have hplaces := forall_mem_take_runLength Char.isDigit fraction
          have htake : cs.take n = cs.take (runLength Char.isDigit cs) ++
              '.' :: fraction.take (runLength Char.isDigit fraction) := by
            rw [List.mem_singleton.mp h, Nat.add_assoc, List.take_add, hfraction, Nat.add_comm 1,
              List.take_succ_cons]
          rw [htake]
          by_cases hdigits : runLength Char.isDigit cs = 0
          · rw [hdigits]
            apply Pointed.bare (digits_take_runLength (by simp_all))
          · apply Pointed.behind (digits_take_runLength hdigits) hplaces
  · contradiction

theorem exponent_of_length (h : exponentLength? cs = some n) :
  Exponent (cs.take n)
  := by
  cases cs with
  | nil => contradiction
  | cons c cs =>
      simp only [exponentLength?, Option.ite_none_right_eq_some, Option.some.injEq] at h
      obtain ⟨⟨hletter, hpos⟩, rfl⟩ := h
      rw [Nat.add_assoc, Nat.add_comm 1, List.take_succ_cons, List.take_add]
      apply Exponent.intro hletter
      · cases cs with
        | nil => exact .inl rfl
        | cons c cs =>
            rw [signLength_cons]
            split <;> simp_all
      · apply digits_take_runLength (Nat.ne_of_gt hpos)

/-- Behind the digits stands an exponent or nothing. -/
theorem scale_of_mem_withExponent (h : n ∈ withExponent cs base) :
  ∃ e, cs.take n = cs.take base ++ e ∧ Scale e
  := by
  rw [withExponent] at h
  split at h
  · obtain rfl := List.mem_singleton.mp h
    exact ⟨[], (List.append_nil _).symm, .none⟩
  · next length hlength =>
      rcases List.mem_cons.mp h with rfl | h
      · exact ⟨[], (List.append_nil _).symm, .none⟩
      · obtain rfl := List.mem_singleton.mp h
        exact ⟨_, List.take_add, .some (exponent_of_length hlength)⟩

/-- The second place where a number may end is behind an exponent. -/
theorem exponent_of_mem_drop (h : n ∈ (withExponent cs base).drop 1) :
  ∃ e, cs.take n = cs.take base ++ e ∧ Exponent e
  := by
  rw [withExponent] at h
  split at h
  · contradiction
  · next length hlength =>
      obtain rfl := List.mem_singleton.mp h
      exact ⟨_, List.take_add, exponent_of_length hlength⟩

/-- A match with a suffix is a number and the suffix, in either case. -/
theorem exists_of_mem_suffixed (h : m ∈ suffixed form suffix cs ends) :
  ∃ n ∈ ends, ∃ s, m.1 = .number form ∧ cs.take m.2 = cs.take n ++ s ∧ s.map Char.toUpper = suffix
  := by
  simp only [suffixed, List.mem_map, List.mem_filter] at h
  obtain ⟨n, ⟨hn, hsuffix⟩, rfl⟩ := h
  exact ⟨n, hn, _, rfl, List.take_add, beq_iff_eq.mp hsuffix⟩

theorem exists_of_map_toUpper_one {s : List Char} {a : Char} (h : s.map Char.toUpper = [a]) :
  ∃ l, s = [l] ∧ l.toUpper = a
  := by
  obtain ⟨l, s, rfl, hl, hs⟩ := List.map_eq_cons_iff.mp h
  exact ⟨l, by rw [List.map_eq_nil_iff.mp hs], hl⟩

theorem exists_of_map_toUpper_two {s : List Char} {a b : Char} (h : s.map Char.toUpper = [a, b]) :
  ∃ l m, s = [l, m] ∧ l.toUpper = a ∧ m.toUpper = b
  := by
  obtain ⟨l, s, rfl, hl, hs⟩ := List.map_eq_cons_iff.mp h
  obtain ⟨m, rfl, hm⟩ := exists_of_map_toUpper_one hs
  exact ⟨l, m, rfl, hl, hm⟩

theorem exists_of_mem_suffixed_one {a : Char} (h : m ∈ suffixed form [a] cs ends) :
  ∃ n ∈ ends, ∃ l, m.1 = .number form ∧ cs.take m.2 = cs.take n ++ [l] ∧ l.toUpper = a
  := by
  obtain ⟨n, hn, s, hform, htake, hs⟩ := exists_of_mem_suffixed h
  obtain ⟨l, rfl, hl⟩ := exists_of_map_toUpper_one hs
  exact ⟨n, hn, l, hform, htake, hl⟩

theorem exists_of_mem_suffixed_two {a b : Char} (h : m ∈ suffixed form [a, b] cs ends) :
  ∃ n ∈ ends, ∃ k l, m.1 = .number form ∧ cs.take m.2 = cs.take n ++ [k, l] ∧ k.toUpper = a ∧
    l.toUpper = b
  := by
  obtain ⟨n, hn, s, hform, htake, hs⟩ := exists_of_mem_suffixed h
  obtain ⟨k, l, rfl, hk, hl⟩ := exists_of_map_toUpper_two hs
  exact ⟨n, hn, k, l, hform, htake, hk, hl⟩

/-- Every match of a number is an instance of a rule. -/
theorem numberRule_of_mem (h : m ∈ numberMatches cs) :
  ∃ form, m.1 = .number form ∧ NumberRule form (cs.take m.2) (cs.drop m.2)
  := by
  have hwhole : ∀ n ∈ (digitEnds cs).flatMap (withExponent cs),
      ∃ ds e, cs.take n = ds ++ e ∧ Digits ds ∧ Scale e := by
    intro n hn
    obtain ⟨base, hbase, hn⟩ := List.mem_flatMap.mp hn
    obtain ⟨e, htake, hscale⟩ := scale_of_mem_withExponent hn
    exact ⟨_, e, htake, digits_of_mem_digitEnds hbase, hscale⟩
  have hpoint : ∀ n ∈ (pointEnds cs).flatMap (withExponent cs),
      ∃ p e, cs.take n = p ++ e ∧ Pointed p ∧ Scale e := by
    intro n hn
    obtain ⟨base, hbase, hn⟩ := List.mem_flatMap.mp hn
    obtain ⟨e, htake, hscale⟩ := scale_of_mem_withExponent hn
    exact ⟨_, e, htake, pointed_of_mem_pointEnds hbase, hscale⟩
  simp only [numberMatches, List.mem_append, List.mem_flatMap] at h
  rcases h with (((((((((h | h) | h) | h) | h) | h) | h) | h) | h) | h) | h
  · obtain ⟨n, hn, l, hform, htake, hl⟩ := exists_of_mem_suffixed_one h
    rw [htake]
    exact ⟨_, hform, .bigInt (digits_of_mem_digitEnds hn) hl⟩
  · obtain ⟨n, hn, l, hform, htake, hl⟩ := exists_of_mem_suffixed_one h
    rw [htake]
    exact ⟨_, hform, .smallInt (digits_of_mem_digitEnds hn) hl⟩
  · obtain ⟨n, hn, l, hform, htake, hl⟩ := exists_of_mem_suffixed_one h
    rw [htake]
    exact ⟨_, hform, .tinyInt (digits_of_mem_digitEnds hn) hl⟩
  · obtain ⟨unit, hunit, h⟩ := h
    obtain ⟨n, hn, l, hform, htake, rfl⟩ := exists_of_mem_suffixed_one h
    rw [htake]
    exact ⟨_, hform, .byteLength (digits_of_mem_digitEnds hn) hunit⟩
  · obtain ⟨n, hn, rfl⟩ := List.mem_map.mp h
    exact ⟨_, rfl, .integer (digits_of_mem_digitEnds hn)⟩
  · obtain ⟨n, hn, rfl⟩ := List.mem_map.mp h
    rcases digitEnds_eq cs with hends | ⟨base, hends⟩
    · simp [hends] at hn
    · have hbase : base ∈ digitEnds cs := by simp [hends]
      rw [hends, List.flatMap_cons, List.flatMap_nil, List.append_nil] at hn
      obtain ⟨e, htake, hexponent⟩ := exponent_of_mem_drop hn
      refine ⟨_, rfl, ?_⟩
      rw [htake]
      apply NumberRule.decimal (digits_of_mem_digitEnds hbase) hexponent
  · obtain ⟨h, hclosed⟩ := List.mem_filter.mp h
    obtain ⟨n, hn, rfl⟩ := List.mem_map.mp h
    obtain ⟨p, e, htake, hp, he⟩ := hpoint n hn
    refine ⟨_, rfl, ?_⟩
    rw [htake]
    apply NumberRule.pointDecimal hp he hclosed
  · obtain ⟨n, hn, l, hform, htake, hl⟩ := exists_of_mem_suffixed_one h
    obtain ⟨ds, e, hds, hdigits, he⟩ := hwhole n hn
    rw [htake, hds]
    exact ⟨_, hform, .double hdigits he hl⟩
  · obtain ⟨h, hclosed⟩ := List.mem_filter.mp h
    obtain ⟨n, hn, l, hform, htake, hl⟩ := exists_of_mem_suffixed_one h
    obtain ⟨p, e, hpe, hp, he⟩ := hpoint n hn
    rw [htake, hpe]
    exact ⟨_, hform, .pointDouble hp he hl hclosed⟩
  · obtain ⟨n, hn, l, m, hform, htake, hl, hm⟩ := exists_of_mem_suffixed_two h
    obtain ⟨ds, e, hds, hdigits, he⟩ := hwhole n hn
    rw [htake, hds]
    exact ⟨_, hform, .bigDecimal hdigits he hl hm⟩
  · obtain ⟨h, hclosed⟩ := List.mem_filter.mp h
    obtain ⟨n, hn, l, m, hform, htake, hl, hm⟩ := exists_of_mem_suffixed_two h
    obtain ⟨p, e, hpe, hp, he⟩ := hpoint n hn
    rw [htake, hpe]
    exact ⟨_, hform, .pointBigDecimal hp he hl hm hclosed⟩

theorem word_of_lookup? {k : Keyword}
    (h : Keyword.lookup? (String.ofList (cs.takeWhile isWordChar)) = some k) :
  Word (cs.takeWhile isWordChar)
  := by
  refine ⟨?_, List.all_eq_true.mp List.all_takeWhile⟩
  intro hnil
  rw [hnil, Keyword.lookup?_nil] at h
  contradiction

theorem exists_of_not_endsWord (h : ¬ endsWord cs) :
  ∃ c rest, cs = c :: rest ∧ isWordChar c
  := by
  cases cs with
  | nil => contradiction
  | cons c rest =>
      refine ⟨c, rest, rfl, ?_⟩
      simpa [endsWord] using h

/-- Every match is an instance of a rule. -/
theorem wordRule_of_mem (h : m ∈ wordMatches cs) :
  WordRule m.1 (cs.take m.2) (cs.drop m.2)
  := by
  simp only [wordMatches, List.mem_append] at h
  rcases h with (((h | h) | h) | h) | h
  · simp only [keywordMatches] at h
    split at h
    · next k hk =>
        rw [List.mem_singleton.mp h]
        change WordRule _ (cs.take (runLength isWordChar cs)) _
        rw [take_runLength]
        apply WordRule.keyword (word_of_lookup? hk) hk
    · contradiction
  · obtain ⟨form, hform, hrule⟩ := numberRule_of_mem h
    rw [hform]
    apply WordRule.number hrule
  · rw [nameMatches] at h
    split at h
    · contradiction
    · next hword =>
        obtain ⟨c, rest, rfl, hc⟩ := exists_of_not_endsWord hword
        rw [List.mem_singleton.mp h, take_runLength]
        apply WordRule.identifier
        exact ⟨by simp [hc], List.all_eq_true.mp List.all_takeWhile⟩
  · rw [nameMatches] at h
    split at h
    · contradiction
    · next hword =>
        obtain ⟨c, rest, rfl, hc⟩ := exists_of_not_endsWord hword
        have hjob : isJobChar c := by simp [isJobChar, hc]
        rw [List.mem_singleton.mp h, take_runLength, List.takeWhile_cons_of_pos hjob]
        apply WordRule.jobIdentifier hc
        apply List.all_eq_true.mp List.all_takeWhile
  · unfold dotMatches at h
    split at h
    · rw [List.mem_singleton.mp h]
      apply WordRule.dot
    · contradiction

/-! ### Every instance of a rule is measured or shorter -/

/-- Something as long is found, or something longer. -/
def Covered (found : List Match) (m : Match) : Prop := m ∈ found ∨ ∃ m' ∈ found, m.2 < m'.2

/-- The text does not go on with a digit. -/
def NoDigit (after : List Char) : Prop := ∀ c ∈ after.head?, c.isDigit = false

variable {w ds p e after : List Char}

theorem runLength_append {q : Char → Bool} (hw : ∀ c ∈ w, q c)
    (hafter : ∀ c ∈ after.head?, q c = false) :
  runLength q (w ++ after) = w.length
  := by
  have hnone : after.takeWhile q = [] := by
    cases after with
    | nil => rfl
    | cons c after => exact List.takeWhile_cons_of_neg (by simp [hafter c rfl])
  rw [runLength, List.takeWhile_append_of_pos hw, hnone, List.append_nil]

theorem le_runLength {q : Char → Bool} (hw : ∀ c ∈ w, q c) (after : List Char) :
  w.length ≤ runLength q (w ++ after)
  := by
  rw [runLength, List.takeWhile_append_of_pos hw, List.length_append]
  apply Nat.le_add_right

theorem digitEnds_append (h : Digits ds) (hafter : NoDigit after) :
  digitEnds (ds ++ after) = [ds.length]
  := by
  simp [digitEnds, runLength_append h.2 hafter, h.1]

theorem pointEnds_append (h : Pointed p) (hafter : NoDigit after) :
  pointEnds (p ++ after) = [p.length]
  := by
  cases h with
  | @behind whole places isWhole arePlaces =>
      have hpoint : NoDigit ('.' :: (places ++ after)) := by simp [NoDigit]
      have hne := isWhole.1
      simp [pointEnds, runLength_append isWhole.2 hpoint, runLength_append arePlaces hafter, hne]
      omega
  | @bare places arePlaces =>
      have hzero : runLength Char.isDigit ('.' :: (places ++ after)) = 0 := by
        simp [runLength]
      have hne := arePlaces.1
      simp [pointEnds, hzero, runLength_append arePlaces.2 hafter, hne, Nat.add_comm]

theorem signLength_append {sign : List Char} (h : sign = [] ∨ sign = ['+'] ∨ sign = ['-'])
    (hdigits : Digits ds) (after : List Char) :
  signLength (sign ++ (ds ++ after)) = sign.length
  := by
  rcases h with rfl | rfl | rfl
  · obtain ⟨hne, hdigit⟩ := hdigits
    cases ds with
    | nil => contradiction
    | cons c ds =>
        have hc := hdigit c (by simp)
        rw [List.nil_append, List.cons_append, signLength_cons, if_neg, List.length_nil]
        rintro (rfl | rfl) <;> contradiction
  · rfl
  · rfl

/-- An exponent is measured at least to its end. -/
theorem exists_exponentLength? (h : Exponent e) (after : List Char) :
  ∃ n, exponentLength? (e ++ after) = some n ∧ e.length ≤ n ∧ (NoDigit after → n = e.length)
  := by
  cases h with
  | @intro letter sign ds isLetter isSign areDigits =>
      have hsign := signLength_append isSign areDigits after
      have hle := le_runLength areDigits.2 after
      have hpos := List.length_pos_iff.mpr areDigits.1
      refine ⟨1 + sign.length + runLength Char.isDigit (ds ++ after), ?_, ?_, ?_⟩
      · simp only [List.cons_append, List.append_assoc, exponentLength?, hsign,
          List.drop_left]
        rw [if_pos ⟨isLetter, by omega⟩]
      · simp only [List.length_cons, List.length_append]
        omega
      · intro hafter
        rw [runLength_append areDigits.2 hafter]
        simp only [List.length_cons, List.length_append]
        omega

theorem noDigit_of_toUpper {l a : Char} (hl : l.toUpper = a) (ha : a.isDigit = false) :
  NoDigit (l :: after)
  := by
  intro c hc
  obtain rfl := Option.mem_some.mp hc
  rw [Bool.eq_false_iff]
  intro hdigit
  rw [toUpper_of_isDigit hdigit] at hl
  rw [hl, ha] at hdigit
  contradiction

theorem noDigit_of_endsWord (h : endsWord after) :
  NoDigit after
  := by
  intro c hc
  cases after with
  | nil => contradiction
  | cons d after =>
      obtain rfl := Option.mem_some.mp hc
      simp only [endsWord, isWordChar, Char.isAlphanum, Bool.not_eq_true',
        Bool.or_eq_false_iff] at h
      exact h.1.2

theorem Exponent.noDigit (h : Exponent e) (after : List Char) :
  NoDigit (e ++ after)
  := by
  cases h with
  | intro isLetter => apply noDigit_of_toUpper isLetter rfl

theorem Scale.noDigit (h : Scale e) (hafter : NoDigit after) :
  NoDigit (e ++ after)
  := by
  cases h with
  | none => exact hafter
  | some isExponent => apply isExponent.noDigit

/-- A number may end behind its exponent. -/
theorem Scale.mem_withExponent (h : Scale e) {cs : List Char} {base : Nat}
    (hcs : cs.drop base = e ++ after) (hafter : NoDigit after) :
  base + e.length ∈ withExponent cs base
  := by
  rw [withExponent, hcs]
  cases h with
  | none => split <;> simp
  | some isExponent =>
      obtain ⟨n, hn, -, heq⟩ := exists_exponentLength? isExponent after
      rw [hn, heq hafter]
      simp

section

variable {cs : List Char}

theorem mem_digitEnds (hcs : cs = ds ++ after) (h : Digits ds) (hafter : NoDigit after) :
  ds.length ∈ digitEnds cs
  := by
  rw [hcs, digitEnds_append h hafter]
  apply List.mem_singleton_self

theorem mem_wholeEnds (hcs : cs = ds ++ e ++ after) (h : Digits ds) (he : Scale e)
    (hafter : NoDigit after) :
  (ds ++ e).length ∈ (digitEnds cs).flatMap (withExponent cs)
  := by
  rw [List.append_assoc] at hcs
  rw [List.length_append]
  apply List.mem_flatMap.mpr ⟨_, mem_digitEnds hcs h (he.noDigit hafter), _⟩
  apply he.mem_withExponent _ hafter
  rw [hcs, List.drop_left]

theorem mem_pointEnds (hcs : cs = p ++ e ++ after) (h : Pointed p) (he : Scale e)
    (hafter : NoDigit after) :
  (p ++ e).length ∈ (pointEnds cs).flatMap (withExponent cs)
  := by
  rw [List.append_assoc] at hcs
  have hends : p.length ∈ pointEnds cs := by
    rw [hcs, pointEnds_append h (he.noDigit hafter)]
    apply List.mem_singleton_self
  rw [List.length_append]
  apply List.mem_flatMap.mpr ⟨_, hends, _⟩
  apply he.mem_withExponent _ hafter
  rw [hcs, List.drop_left]

end

/-- A number with a suffix is found behind each place where its digits may end. -/
theorem mem_suffixed (form : NumberForm) {s suffix : List Char} {ends : List Nat}
    (hends : w.length ∈ ends) (hs : s.map Char.toUpper = suffix) (after : List Char) :
  (.number form, (w ++ s).length) ∈ suffixed form suffix (w ++ s ++ after) ends
  := by
  have hlength : suffix.length = s.length := by rw [← hs, List.length_map]
  simp only [suffixed, List.mem_map, List.mem_filter]
  refine ⟨w.length, ⟨hends, ?_⟩, by rw [hlength, List.length_append]⟩
  simp [startsWithSuffix, List.append_assoc, hlength, hs]

theorem mem_closed {kind : Kind} {found : List Match} (h : (kind, w.length) ∈ found)
    (hends : endsWord after) :
  (kind, w.length) ∈ closed (w ++ after) found
  := by
  apply List.mem_filter.mpr ⟨h, _⟩
  rw [List.drop_left]
  apply hends

/-- Digits with a letter behind them are found as the form that the letter marks. -/
theorem mem_suffixed_one (form : NumberForm) {l a : Char} (digits : Digits ds) (hl : l.toUpper = a)
    (ha : a.isDigit = false) (after : List Char) :
  (.number form, (ds ++ [l]).length) ∈
    suffixed form [a] (ds ++ [l] ++ after) (digitEnds (ds ++ [l] ++ after))
  := by
  have hends := mem_digitEnds (List.append_cons ds l after).symm digits (noDigit_of_toUpper hl ha)
  exact mem_suffixed form hends (by rw [List.map_singleton, hl]) after

theorem covered_of_le {found : List Match} {kind : Kind} {n k : Nat} (h : (kind, n) ∈ found)
    (hle : k ≤ n) :
  Covered found (kind, k)
  := by
  rcases Nat.eq_or_lt_of_le hle with rfl | hlt
  · exact .inl h
  · exact .inr ⟨_, h, hlt⟩

/-- Every number is measured, or a longer one is. -/
theorem covered_of_numberRule {form : NumberForm} (h : NumberRule form w after) :
  Covered (numberMatches (w ++ after)) (.number form, w.length)
  := by
  cases h with
  | bigInt digits mark =>
      have hmem := mem_suffixed_one .bigInt digits mark rfl after
      left
      simp only [numberMatches, List.mem_append, hmem, true_or]
  | smallInt digits mark =>
      have hmem := mem_suffixed_one .smallInt digits mark rfl after
      left
      simp only [numberMatches, List.mem_append, hmem, true_or, or_true]
  | tinyInt digits mark =>
      have hmem := mem_suffixed_one .tinyInt digits mark rfl after
      left
      simp only [numberMatches, List.mem_append, hmem, true_or, or_true]
  | @byteLength ds _ l digits mark =>
      have hletter : l.toUpper.isDigit = false := by
        simp only [List.mem_cons, List.not_mem_nil, or_false] at mark
        rcases mark with h | h | h | h <;> rw [h] <;> rfl
      have hmem : (Kind.number .byteLength, (ds ++ [l]).length) ∈ ['B', 'K', 'M', 'G'].flatMap
          fun unit => suffixed .byteLength [unit] (ds ++ [l] ++ after)
            (digitEnds (ds ++ [l] ++ after)) :=
        List.mem_flatMap.mpr ⟨_, mark, mem_suffixed_one .byteLength digits rfl hletter after⟩
      left
      simp only [numberMatches, List.mem_append, hmem, true_or, or_true]
  | integer digits =>
      have hle := le_runLength digits.2 after
      have hpos := List.length_pos_iff.mpr digits.1
      have hends : digitEnds (w ++ after) = [runLength Char.isDigit (w ++ after)] := by
        simp only [digitEnds]
        rw [if_neg (by omega)]
      have hmem : (Kind.number .integer, runLength Char.isDigit (w ++ after)) ∈
          numberMatches (w ++ after) := by
        simp only [numberMatches, List.mem_append, hends, List.map_singleton, List.mem_singleton,
          true_or, or_true]
      exact covered_of_le hmem hle
  | @decimal ds e _ digits exponent =>
      obtain ⟨n, hn, hle, -⟩ := exists_exponentLength? exponent after
      have hends : digitEnds (ds ++ e ++ after) = [ds.length] := by
        rw [List.append_assoc, digitEnds_append digits (exponent.noDigit after)]
      have hdrop : (ds ++ e ++ after).drop ds.length = e ++ after := by
        rw [List.append_assoc, List.drop_left]
      have hwhole : (digitEnds (ds ++ e ++ after)).flatMap (withExponent (ds ++ e ++ after)) =
          [ds.length, ds.length + n] := by
        simp only [hends, List.flatMap_cons, List.flatMap_nil, withExponent, hdrop, hn,
          List.append_nil]
      have hmem : (Kind.number .decimal, ds.length + n) ∈ numberMatches (ds ++ e ++ after) := by
        simp only [numberMatches, List.mem_append, hwhole, decimals, List.drop_succ_cons,
          List.drop_zero, List.map_singleton, List.mem_singleton, true_or, or_true]
      rw [List.length_append]
      exact covered_of_le hmem (Nat.add_le_add_left hle _)
  | @pointDecimal p e _ point scale ends =>
      have hends := mem_pointEnds rfl point scale (noDigit_of_endsWord ends)
      have hdecimal : (Kind.number .decimal, (p ++ e).length) ∈
          decimals ((pointEnds (p ++ e ++ after)).flatMap (withExponent (p ++ e ++ after))) :=
        List.mem_map_of_mem hends
      have hmem := mem_closed hdecimal ends
      left
      simp only [numberMatches, List.mem_append, hmem, true_or, or_true]
  | @double ds e _ l digits scale mark =>
      have hends := mem_wholeEnds (List.append_cons (ds ++ e) l after).symm digits scale
        (noDigit_of_toUpper mark rfl)
      have hmem := mem_suffixed .double hends (by rw [List.map_singleton, mark]) after
      left
      simp only [numberMatches, List.mem_append, hmem, true_or, or_true]
  | @pointDouble p e _ l point scale mark ends =>
      have hends := mem_pointEnds (List.append_cons (p ++ e) l after).symm point scale
        (noDigit_of_toUpper mark rfl)
      have hmem := mem_suffixed .double hends (by rw [List.map_singleton, mark]) after
      have hmem := mem_closed hmem ends
      left
      simp only [numberMatches, List.mem_append, hmem, true_or, or_true]
  | @bigDecimal ds e _ l m digits scale mark mark' =>
      have hcs : ds ++ e ++ [l, m] ++ after = ds ++ e ++ l :: m :: after := by simp
      have hends := mem_wholeEnds hcs digits scale (noDigit_of_toUpper mark rfl)
      have hsuffix : [l, m].map Char.toUpper = ['B', 'D'] := by simp [mark, mark']
      have hmem := mem_suffixed .bigDecimal hends hsuffix after
      left
      simp only [numberMatches, List.mem_append, hmem, true_or, or_true]
  | @pointBigDecimal p e _ l m point scale mark mark' ends =>
      have hcs : p ++ e ++ [l, m] ++ after = p ++ e ++ l :: m :: after := by simp
      have hends := mem_pointEnds hcs point scale (noDigit_of_toUpper mark rfl)
      have hsuffix : [l, m].map Char.toUpper = ['B', 'D'] := by simp [mark, mark']
      have hmem := mem_closed (mem_suffixed .bigDecimal hends hsuffix after) ends
      left
      simp only [numberMatches, List.mem_append, hmem, or_true]

theorem Covered.mono {found found' : List Match} {m : Match} (h : Covered found m)
    (hsub : found ⊆ found') :
  Covered found' m
  := by
  rcases h with h | ⟨m', h, hlt⟩
  · exact .inl (hsub h)
  · exact .inr ⟨m', hsub h, hlt⟩

theorem mem_nameMatches {kind : Kind} {q : Char → Bool} {c : Char} (hc : isWordChar c) :
  (kind, runLength q (c :: after)) ∈ nameMatches kind q (c :: after)
  := by
  rw [nameMatches, if_neg (by simp [endsWord, hc])]
  apply List.mem_singleton_self

theorem mem_nameMatches_of_word {kind : Kind} {q : Char → Bool} (h : Word w) :
  (kind, runLength q (w ++ after)) ∈ nameMatches kind q (w ++ after)
  := by
  cases w with
  | nil => exact absurd rfl h.1
  | cons c w => exact mem_nameMatches (h.2 c (by simp))

/-- A word that goes on is shorter than the plain name there. -/
theorem covered_keyword {k : Keyword} (h : Word w)
    (spells : Keyword.lookup? (String.ofList w) = some k) :
  Covered (wordMatches (w ++ after)) (.keyword k, w.length)
  := by
  rcases Nat.eq_or_lt_of_le (le_runLength h.2 after) with heq | hlt
  · have htake : (w ++ after).takeWhile isWordChar = w := by
      rw [← take_runLength, ← heq, List.take_left]
    have hmem : (Kind.keyword k, w.length) ∈ keywordMatches (w ++ after) := by
      simp only [keywordMatches, htake, spells, List.mem_singleton]
    left
    simp only [wordMatches, List.mem_append, hmem, true_or]
  · have hmem : (Kind.identifier, runLength isWordChar (w ++ after)) ∈
        nameMatches .identifier isWordChar (w ++ after) := mem_nameMatches_of_word h
    refine .inr ⟨(.identifier, runLength isWordChar (w ++ after)), ?_, hlt⟩
    simp only [wordMatches, List.mem_append, hmem, true_or, or_true]

/-- Every instance of a rule is measured, or a longer one is. -/
theorem covered_of_wordRule {kind : Kind} (h : WordRule kind w after) :
  Covered (wordMatches (w ++ after)) (kind, w.length)
  := by
  cases h with
  | keyword word spells => exact covered_keyword word spells
  | number isNumber =>
      apply (covered_of_numberRule isNumber).mono
      intro m hm
      simp only [wordMatches, List.mem_append, hm, true_or, or_true]
  | identifier word =>
      apply covered_of_le _ (le_runLength word.2 after)
      simp only [wordMatches, List.mem_append, mem_nameMatches_of_word word, true_or, or_true]
  | @jobIdentifier c cs _ first others =>
      have hjob : ∀ d ∈ c :: cs, isJobChar d := by
        intro d hd
        rcases List.mem_cons.mp hd with rfl | hd
        · simp [isJobChar, first]
        · exact others d hd
      apply covered_of_le _ (le_runLength hjob after)
      simp only [wordMatches, List.mem_append, List.cons_append, mem_nameMatches first, true_or,
        or_true]
  | dot =>
      left
      simp [wordMatches, dotMatches]

end

/-- Of rules that stand in one place, the same characters are tokens of the same kind. -/
theorem WordRule.kind_eq {kind kind' : Kind} {w after after' : List Char}
    (h : WordRule kind w after) (h' : WordRule kind' w after') (hrank : kind.rank = kind'.rank) :
  kind = kind'
  := by
  cases h with
  | keyword _ spells =>
      cases h' with
      | keyword _ spells' => rw [Option.some.inj (spells.symm.trans spells')]
      | @number form => exact absurd hrank (Nat.ne_of_lt form.rank_pos)
      | _ => contradiction
  | @number form =>
      have hle := form.rank_le
      cases h' with
      | @number form' => rw [NumberForm.eq_of_rank_eq hrank]
      | keyword => exact absurd hrank.symm (Nat.ne_of_lt form.rank_pos)
      | _ =>
          simp only [Kind.rank] at hrank
          omega
  | identifier | jobIdentifier | dot =>
      cases h' with
      | @number form =>
          have hle := form.rank_le
          simp only [Kind.rank] at hrank
          omega
      | _ => first | rfl | contradiction

/-- What else is found is shorter than the longest match, or as long and of no earlier rule. -/
theorem lt_or_le_of_longest? {found : List Match} {best m : Match}
    (h : longest? found = some best) (hranked : found.Pairwise fun m m' => m.1.rank ≤ m'.1.rank)
    (hm : m ∈ found) :
  m.2 < best.2 ∨ m.2 = best.2 ∧ best.1.rank ≤ m.1.rank
  := by
  obtain ⟨before, after, rfl, hbefore, hafter⟩ := exists_of_longest? h
  have hlater := (List.pairwise_cons.mp (List.pairwise_append.mp hranked).2.1).1
  rcases List.mem_append.mp hm with hm | hm
  · exact .inl (hbefore m hm)
  · rcases List.mem_cons.mp hm with rfl | hm
    · exact .inr ⟨rfl, Nat.le_refl _⟩
    · rcases Nat.lt_or_eq_of_le (hafter m hm) with hlt | heq
      · exact .inl hlt
      · exact .inr ⟨heq, hlater m hm⟩

/-- Where a word or a number may begin, something is found. -/
theorem exists_longest? {c : Char} (h : isWordChar c ∨ c = '.') (rest : List Char) :
  ∃ best, longest? (wordMatches (c :: rest)) = some best ∧ 0 < best.2
  := by
  obtain ⟨kind, hrule⟩ : ∃ kind, WordRule kind [c] rest := by
    rcases h with h | rfl
    · exact ⟨_, .identifier ⟨by simp, by simp [h]⟩⟩
    · exact ⟨_, .dot⟩
  have hcovered := covered_of_wordRule hrule
  cases hbest : longest? (wordMatches (c :: rest)) with
  | none => simp [Covered, longest?_eq_none hbest] at hcovered
  | some best =>
      refine ⟨best, rfl, ?_⟩
      obtain ⟨-, hranked, -⟩ := ranked_wordMatches (c :: rest)
      rcases hcovered with hmem | ⟨m, hmem, hlt⟩
      · have := lt_or_le_of_longest? hbest hranked hmem
        simp only [List.length_singleton] at this
        omega
      · have := lt_or_le_of_longest? hbest hranked hmem
        omega

/-- No instance of a rule is longer than the longest match, or as long and of an earlier rule. -/
theorem lt_or_eq_of_wordRule {cs w w' after' : List Char} {kind kind' : Kind}
    (hbest : longest? (wordMatches cs) = some (kind, w.length)) {after : List Char}
    (hcs : cs = w ++ after) (hrule : WordRule kind w after) (hcs' : cs = w' ++ after')
    (hrule' : WordRule kind' w' after') :
  w'.length < w.length ∨ w' = w ∧ (kind' = kind ∨ kind.rank < kind'.rank)
  := by
  obtain ⟨-, hranked, -⟩ := ranked_wordMatches cs
  have hcovered := covered_of_wordRule hrule'
  rw [← hcs'] at hcovered
  rcases hcovered with hmem | ⟨m, hmem, hlt⟩
  · rcases lt_or_le_of_longest? hbest hranked hmem with hlt | ⟨heq, hle⟩
    · exact .inl hlt
    · obtain ⟨rfl, -⟩ := List.append_inj (hcs'.symm.trans hcs) heq
      rcases Nat.eq_or_lt_of_le hle with heq | hlt
      · exact .inr ⟨rfl, .inl (hrule'.kind_eq hrule heq.symm)⟩
      · exact .inr ⟨rfl, .inr hlt⟩
  · have := lt_or_le_of_longest? hbest hranked hmem
    left
    simp only at hlt this
    omega

end Match

/-- Where a word or a number may begin, the longest match is taken. -/
theorem Token.measure_of_longest? {c : Char} {rest : List Char} {kind : Kind} {n : Nat}
    (h : Match.isWordChar c ∨ c = '.')
    (hbest : Match.longest? (Match.wordMatches (c :: rest)) = some (kind, n)) :
  measure c rest = .ok (kind, n - 1)
  := by
  rw [measure_of_word h, hbest]
  rfl

/-- Where a word or a number may begin, the next token is the longest instance of any rule, and
of equally long ones that of the earliest rule. -/
theorem Cursor.next_longest {c : Cursor} {x : Char} {rest : List Char} (hrest : c.rest = x :: rest)
    (hx : Match.isWordChar x ∨ x = '.') :
  ∃ kind w after, c.rest = w ++ after ∧ Match.WordRule kind w after ∧
    c.next = .ok (⟨kind, String.ofList w, c.position, (c.skip w.length).position⟩,
      c.skip w.length) ∧
    ∀ kind' w' after', c.rest = w' ++ after' → Match.WordRule kind' w' after' →
      w'.length < w.length ∨ w' = w ∧ (kind' = kind ∨ kind.rank < kind'.rank)
  := by
  obtain ⟨⟨kind, n⟩, hbest, hpos⟩ := Match.exists_longest? hx rest
  rw [← hrest] at hbest
  have hmem := Match.longest?_mem hbest
  obtain ⟨hword, hle⟩ := Match.of_mem_wordMatches hmem
  have hrule := Match.wordRule_of_mem hmem
  have hcs : c.rest = c.rest.take n ++ c.rest.drop n := (List.take_append_drop n c.rest).symm
  have hlength : (c.rest.take n).length = n := List.length_take_of_le hle
  have hnext : c.next = .ok (⟨kind, String.ofList (c.rest.take n), c.position,
      (c.skip n).position⟩, c.skip n) := by
    have hmeasure : Token.measure x rest = .ok (kind, n - 1) :=
      Token.measure_of_longest? hx (hrest ▸ hbest)
    have htext : Token.textOf kind (c.rest.take n) = String.ofList (c.rest.take n) := by
      rw [Token.textOf, if_neg]
      rintro rfl
      contradiction
    rw [← htext]
    unfold next
    simp only [hrest, hmeasure, Nat.sub_add_cancel hpos]
  refine ⟨kind, c.rest.take n, c.rest.drop n, hcs, hrule, ?_, ?_⟩
  · rw [hlength, hnext]
  · intro kind' w' after' hcs' hrule'
    apply Match.lt_or_eq_of_wordRule _ hcs hrule hcs' hrule'
    rw [hlength, hbest]

/-- An exponent with a sign, and a letter behind it. -/
theorem Cursor.next_longest_exponent :
  (Cursor.ofList ['1', 'E', '-', '5', 'x']).rest = '1' :: ['E', '-', '5', 'x'] ∧
    Match.isWordChar '1' ∧
    ∃ kind w after, ['1', 'E', '-', '5', 'x'] = w ++ after ∧ Match.WordRule kind w after ∧
      (Cursor.ofList ['1', 'E', '-', '5', 'x']).next =
        .ok (⟨kind, String.ofList w, .start,
            ((Cursor.ofList ['1', 'E', '-', '5', 'x']).skip w.length).position⟩,
          (Cursor.ofList ['1', 'E', '-', '5', 'x']).skip w.length) ∧
      ∀ kind' w' after', ['1', 'E', '-', '5', 'x'] = w' ++ after' →
        Match.WordRule kind' w' after' →
          w'.length < w.length ∨ w' = w ∧ (kind' = kind ∨ kind.rank < kind'.rank)
  := ⟨rfl, rfl, next_longest (c := ofList ['1', 'E', '-', '5', 'x']) rfl (.inl rfl)⟩

end SqlFront
