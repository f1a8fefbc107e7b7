import SqlFront.Proofs.Printing.Leaves
import SqlFront.Proofs.Tokens.Cut
import SqlFront.Proofs.Tokens.Longest

/-!
# Dots and decimal points

A dot before a word is a token of its own unless it makes a number with the beginning of the word
(`Match.Fractional`): `.1` in `.1-x` is a number, in `.1x` it is not.  A name is the same token
before a dot and where it stands alone.
-/

namespace SqlFront

namespace Match

/-! ### The point of a number -/

variable {w p e cs more after : List Char} {form : NumberForm} {kind : Kind} {n : Nat}

theorem noPoint_of_isDigit (h : ∀ c ∈ w, c.isDigit) :
  '.' ∉ w
  := by
  intro hmem
  have := h _ hmem
  contradiction

theorem ne_point_of_toUpper {l a : Char} (hl : l.toUpper = a) (ha : a ≠ '.') :
  '.' ≠ l
  := by
  rintro rfl
  exact ha hl.symm

theorem Exponent.noPoint (h : Exponent e) :
  '.' ∉ e
  := by
  cases h with
  | intro isLetter isSign areDigits =>
      have hsign := noPoint_of_isDigit areDigits.2
      have hletter := ne_point_of_toUpper isLetter (by decide)
      rcases isSign with rfl | rfl | rfl <;> simp [hletter, hsign]

theorem Scale.noPoint (h : Scale e) :
  '.' ∉ e
  := by
  cases h with
  | none => simp
  | some isExponent => exact isExponent.noPoint

/-- A number that has a point begins with the digits around the point, no other follows, and no word
goes on behind the number. -/
theorem NumberRule.exists_pointed (h : NumberRule form w after) (hw : '.' ∈ w) :
  ∃ p e, w = p ++ e ∧ Pointed p ∧ '.' ∉ e ∧ endsWord after
  := by
  cases h with
  | bigInt digits mark | smallInt digits mark | tinyInt digits mark =>
      simp [noPoint_of_isDigit digits.2, ne_point_of_toUpper mark] at hw
  | byteLength digits mark =>
      have hmark : ∀ a ∈ ['B', 'K', 'M', 'G'], a ≠ '.' := by simp
      simp [noPoint_of_isDigit digits.2, ne_point_of_toUpper rfl (hmark _ mark)] at hw
  | integer digits => exact absurd hw (noPoint_of_isDigit digits.2)
  | decimal digits exponent =>
      simp [noPoint_of_isDigit digits.2, exponent.noPoint] at hw
  | double digits scale mark =>
      simp [noPoint_of_isDigit digits.2, scale.noPoint, ne_point_of_toUpper mark] at hw
  | bigDecimal digits scale mark mark' =>
      simp [noPoint_of_isDigit digits.2, scale.noPoint, ne_point_of_toUpper mark,
        ne_point_of_toUpper mark'] at hw
  | pointDecimal point scale ends => exact ⟨_, _, rfl, point, scale.noPoint, ends⟩
  | pointDouble point scale mark ends =>
      refine ⟨_, _, List.append_assoc _ _ _, point, ?_, ends⟩
      simp [scale.noPoint, ne_point_of_toUpper mark]
  | pointBigDecimal point scale mark mark' ends =>
      refine ⟨_, _, List.append_assoc _ _ _, point, ?_, ends⟩
      simp [scale.noPoint, ne_point_of_toUpper mark, ne_point_of_toUpper mark']

/-- A number that has a point has only digits before it. -/
theorem NumberRule.isDigit_of_point {ds tail : List Char}
    (h : NumberRule form (ds ++ '.' :: tail) after) :
  ∀ c ∈ ds, c.isDigit
  := by
  obtain ⟨p, e, hpe, hp, he, -⟩ := h.exists_pointed (by simp)
  obtain ⟨whole, places, rfl, hwhole, hplaces⟩ : ∃ whole places, p = whole ++ '.' :: places ∧
      (∀ c ∈ whole, c.isDigit) ∧ ∀ c ∈ places, c.isDigit := by
    cases hp with
    | behind isWhole arePlaces => exact ⟨_, _, rfl, isWhole.2, arePlaces⟩
    | bare arePlaces => exact ⟨[], _, rfl, by simp, arePlaces.2⟩
  have htail : '.' ∉ places ++ e := by
    simp [noPoint_of_isDigit hplaces, he]
  rw [List.append_assoc, List.cons_append] at hpe
  rw [((List.append_cons_inj_of_notMem (noPoint_of_isDigit hwhole) htail).mp hpe.symm).1] at hwhole
  exact hwhole

/-- Behind a point at its front a number has a digit and no other point. -/
theorem NumberRule.places (h : NumberRule form ('.' :: w) after) :
  (∃ d u, w = d :: u ∧ d.isDigit) ∧ '.' ∉ w
  := by
  obtain ⟨p, e, hpe, hp, he, -⟩ := h.exists_pointed (by simp)
  cases hp with
  | @behind whole places isWhole =>
      obtain ⟨d, ds, hds⟩ := List.exists_cons_of_ne_nil isWhole.1
      have hd := isWhole.2 d (by simp [hds])
      rw [hds] at hpe
      obtain ⟨rfl, -⟩ := List.cons.inj hpe
      contradiction
  | @bare places arePlaces =>
      obtain ⟨d, ds, hds⟩ := List.exists_cons_of_ne_nil arePlaces.1
      obtain rfl : w = places ++ e := (List.cons.inj hpe).2
      constructor
      · exact ⟨d, ds ++ e, by rw [hds, List.cons_append], arePlaces.2 d (by simp [hds])⟩
      · simp [noPoint_of_isDigit arePlaces.2, he]

/-! ### Fractions -/

/-- A point before `w` makes a number with the beginning of `w`. -/
def Fractional (w : List Char) : Prop := ∃ form u v, w = u ++ v ∧ NumberRule form ('.' :: u) v

theorem fractional_iff :
  Fractional w ↔ numberMatches ('.' :: w) ≠ []
  := by
  constructor
  · rintro ⟨form, u, v, rfl, hrule⟩ hnil
    have hcovered := covered_of_numberRule hrule
    rw [List.cons_append, hnil] at hcovered
    simp [Covered] at hcovered
  · intro h
    obtain ⟨m, hm⟩ := List.exists_mem_of_ne_nil _ h
    obtain ⟨form, -, hrule⟩ := numberRule_of_mem hm
    obtain ⟨k, hk⟩ : ∃ k, m.2 = k + 1 := by
      apply Nat.exists_eq_succ_of_ne_zero
      intro hzero
      rw [hzero, List.take_zero] at hrule
      exact hrule.ne_nil rfl
    rw [hk, List.take_succ_cons, List.drop_succ_cons] at hrule
    exact ⟨form, _, _, (List.take_append_drop k w).symm, hrule⟩

instance (w : List Char) : Decidable (Fractional w) := decidable_of_iff _ fractional_iff.symm

example : Fractional ['1', '-', 'x'] ∧ ¬ Fractional ['1', 'x', '-', 'x'] := by decide

/-- What stands behind a further dot does not matter. -/
theorem fractional_append (hmore : ∀ c ∈ more.head?, c = '.') :
  Fractional (w ++ more) ↔ Fractional w
  := by
  have hends : endsWord more := by
    cases more with
    | nil => rfl
    | cons c more =>
        obtain rfl := hmore c rfl
        rfl
  constructor
  · rintro ⟨form, u, v, huv, hrule⟩
    obtain ⟨v', rfl, rfl⟩ : ∃ v', w = u ++ v' ∧ v = v' ++ more := by
      rcases List.append_eq_append_iff.mp huv with ⟨mid, rfl, hmid⟩ | ⟨mid, hw, hv⟩
      · cases mid with
        | nil => exact ⟨[], by simp, by simpa using hmid.symm⟩
        | cons c mid =>
            obtain rfl := hmore c (by simp [hmid])
            have hpoint := hrule.places.2
            simp at hpoint
      · exact ⟨mid, hw, hv⟩
    exact ⟨form, u, v', rfl, hrule.congr fun _ => (endsWord_append_iff hends).mp⟩
  · rintro ⟨form, u, v, rfl, hrule⟩
    exact ⟨form, u, v ++ more, List.append_assoc u v more,
      hrule.congr fun _ => (endsWord_append_iff hends).mpr⟩

theorem not_fractional_of_head {c : Char} (hc : c.isDigit = false) :
  ¬ Fractional (c :: w)
  := by
  rintro ⟨form, u, v, huv, hrule⟩
  obtain ⟨⟨d, u', rfl, hd⟩, -⟩ := hrule.places
  obtain ⟨rfl, -⟩ := List.cons.inj huv
  rw [hc] at hd
  contradiction

/-! ### Rules at a dot -/

/-- What is neither a number nor a dot consists of the characters of long names. -/
theorem WordRule.number_or (h : WordRule kind w after) :
  (∃ form, kind = .number form ∧ NumberRule form w after) ∨ w = ['.'] ∨ ∀ d ∈ w, isJobChar d
  := by
  cases h with
  | keyword word | identifier word =>
      right; right
      intro d hd
      simp [isJobChar, word.2 d hd]
  | number isNumber => exact .inl ⟨_, rfl, isNumber⟩
  | jobIdentifier first others =>
      right; right
      intro d hd
      rcases List.mem_cons.mp hd with rfl | hd
      · simp [isJobChar, first]
      · exact others d hd
  | dot => exact .inr (.inl rfl)

/-- At a dot begins a number or the dot itself. -/
theorem WordRule.of_point (h : WordRule kind ('.' :: w) after) :
  (∃ form, kind = .number form ∧ NumberRule form ('.' :: w) after) ∨ kind = .dot ∧ w = []
  := by
  cases h with
  | keyword word | identifier word =>
      have := word.2 '.' (by simp)
      contradiction
  | number isNumber => exact .inl ⟨_, rfl, isNumber⟩
  | jobIdentifier first => contradiction
  | dot => exact .inr ⟨rfl, rfl⟩

/-- What is measured at a dot is the dot or a number. -/
theorem exists_longest?_point (cs : List Char) :
  longest? (wordMatches ('.' :: cs)) = some (.dot, 1) ∨
    ∃ form n, longest? (wordMatches ('.' :: cs)) = some (.number form, n) ∧ Fractional cs
  := by
  obtain ⟨⟨kind, n⟩, hbest, hpos⟩ := exists_longest? (.inr rfl) cs
  obtain ⟨k, rfl⟩ : ∃ k, n = k + 1 := Nat.exists_eq_succ_of_ne_zero (Nat.ne_of_gt hpos)
  have hmem := longest?_mem hbest
  have hrule := wordRule_of_mem hmem
  rw [List.take_succ_cons, List.drop_succ_cons] at hrule
  rcases hrule.of_point with ⟨form, rfl, hnumber⟩ | ⟨rfl, hnil⟩
  · exact .inr ⟨form, _, hbest, form, _, _, (List.take_append_drop k cs).symm, hnumber⟩
  · have hlength := List.length_take_of_le (Nat.le_of_succ_le_succ (of_mem_wordMatches hmem).2)
    rw [hnil] at hlength
    obtain rfl : 0 = k := hlength
    exact .inl hbest

end Match

namespace Token

open Match

variable {cs more : List Char} {c : Char} {kind : Kind} {n : Nat}

/-- A dot that makes no number with what follows is a token of its own. -/
theorem measure_point (h : ¬ Fractional cs) :
  measure '.' cs = .ok (.dot, 0)
  := by
  rcases exists_longest?_point cs with hbest | ⟨form, n, -, hfractional⟩
  · exact measure_of_longest? (.inr rfl) hbest
  · contradiction

/-- A dot that makes a number with what follows belongs to a number. -/
theorem measure_point_fractional (h : Fractional cs) :
  ∃ form n, measure '.' cs = .ok (.number form, n)
  := by
  rcases exists_longest?_point cs with hbest | ⟨form, n, hbest, -⟩
  · -- the dot alone is shorter than the number that it begins
    obtain ⟨form, u, v, rfl, hnumber⟩ := h
    have hlonger := lt_or_eq_of_wordRule (w := ['.']) hbest rfl .dot rfl (.number hnumber)
    obtain ⟨⟨d, u', rfl, -⟩, -⟩ := hnumber.places
    simp at hlonger
  · exact ⟨form, _, measure_of_longest? (.inr rfl) hbest⟩

/-! ### Names before dots -/

/-- A name without back-quotes is measured by the rules for words. -/
theorem longest?_of_name (h : measure c cs = .ok (kind, n)) (hname : kind.isName)
    (hquoted : kind ≠ .quotedIdentifier) :
  isWordChar c ∧ longest? (wordMatches (c :: cs)) = some (kind, n + 1)
  := by
  have hnot : ∀ k : Kind, k.isName = false → k ≠ kind := by
    rintro k hk rfl
    rw [hk] at hname
    contradiction
  cases opening c cs with
  | blank isBlank => simp [measure_of_isBlank isBlank, hnot .whitespace rfl] at h
  | string isQuote closed => simp [measure_string isQuote closed, hnot .string rfl] at h
  | openString isQuote endless => simp [measure_openString isQuote endless] at h
  | quoted closed => simp [measure_quoted closed, hquoted.symm] at h
  | openQuoted endless => simp [measure_openQuoted endless, hnot .unrecognized rfl] at h
  | dashes another =>
      obtain ⟨cs, rfl⟩ := List.head?_eq_some_iff.mp another
      simp [measure_dashes, hnot .lineComment rfl] at h
  | slash => rcases (of_measureSlash h).2 with rfl | rfl | rfl <;> contradiction
  | word begins =>
      obtain ⟨⟨kind', n'⟩, hbest, hpos⟩ := exists_longest? begins cs
      rw [measure_of_longest? begins hbest] at h
      obtain ⟨rfl, rfl⟩ := Prod.mk.inj (Except.ok.inj h)
      rw [hbest, Nat.sub_add_cancel hpos]
      refine ⟨begins.resolve_right ?_, rfl⟩
      rintro rfl
      rcases exists_longest?_point cs with hpoint | ⟨form, m, hpoint, -⟩
      · rw [hbest] at hpoint
        simp [hnot .dot rfl |>.symm] at hpoint
      · rw [hbest] at hpoint
        simp [hnot (.number form) rfl |>.symm] at hpoint
  | operator begins =>
      rw [measure_operator begins] at h
      have hkind := congrArg Prod.fst (Except.ok.inj h)
      unfold measureOperator at hkind
      split at hkind <;> exact absurd hkind (hnot _ rfl)

/-- A name without back-quotes is no text of digits. -/
theorem exists_not_isDigit (h : measure c cs = .ok (kind, cs.length)) (hname : kind.isName) :
  ∃ d ∈ c :: cs, d.isDigit = false
  := by
  by_contra hnone
  have hdigits : ∀ d ∈ c :: cs, d.isDigit := by simpa using hnone
  have hkind : kindOf? (String.ofList (c :: cs)) = some (.number .integer) :=
    kindOf?_digits String.toList_ofList hdigits
  obtain ⟨c', cs', hword, hmeasure, -⟩ := kindOf?_eq_some hkind
  rw [String.toList_ofList, List.cons.injEq] at hword
  obtain ⟨rfl, rfl⟩ := hword
  rw [hmeasure, Except.ok.injEq, Prod.mk.injEq] at h
  rw [← h.1] at hname
  contradiction

/-- A name without back-quotes is the same token before a dot: what is longer and has a point is a
number, and a name has a character that is no digit. -/
theorem measure_before_point (h : measure c cs = .ok (kind, cs.length)) (hname : kind.isName)
    (hquoted : kind ≠ .quotedIdentifier) (more : List Char) :
  measure c (cs ++ '.' :: more) = .ok (kind, cs.length)
  := by
  obtain ⟨hc, hbest⟩ := longest?_of_name h hname hquoted
  obtain ⟨d, hd, hdigit⟩ := exists_not_isDigit h hname
  obtain ⟨⟨kind', n⟩, hbest', -⟩ := exists_longest? (.inl hc) (cs ++ '.' :: more)
  have hle : n ≤ (c :: cs).length := by
    by_contra hlt
    obtain ⟨k, rfl⟩ : ∃ k, n = (c :: cs).length + (k + 1) := ⟨n - (c :: cs).length - 1, by omega⟩
    have hrule := wordRule_of_mem (longest?_mem hbest')
    rw [← List.cons_append, List.take_length_add_append, List.take_succ_cons] at hrule
    rcases hrule.number_or with ⟨form, -, hnumber⟩ | hdot | hjob
    · rw [hnumber.isDigit_of_point d hd] at hdigit
      contradiction
    · simp at hdot
    · have := hjob '.' (by simp)
      contradiction
  have hcut := longest?_cut (.inl hc) rfl hbest' hle
  rw [hbest, Option.some.injEq, Prod.mk.injEq] at hcut
  obtain ⟨rfl, rfl⟩ := hcut
  exact measure_of_longest? (.inl hc) hbest'

end Token

end SqlFront
