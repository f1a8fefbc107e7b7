import Mathlib.Data.List.Infix
import Mathlib.Tactic.IntervalCases
import SqlFront.Text.Quoted
import SqlFront.Token.Complete
import SqlFront.Token.Iterator

/-!
# Escapes in string literals

What the characters between the quotes of a string literal stand for is said by the relation
`Text.Denotes`.  A backslash makes something of the characters behind it: a character by its number,
if they write one, otherwise what the next of them stands for.  The numbers are four hexadecimal
digits behind a `u` or three octal ones (`Text.Numbered`).

The literals are read by this relation, except that a plus sign and three hexadecimal digits write a
number too (`Text.Signed`).  So the value of a literal is the one that its characters denote exactly
if no such escape is in it (`Text.unescape_denotes`).
-/

namespace SqlFront.Text

/-! ### Digits -/

/-- `c` is the hexadecimal digit of value `n`, in letters of either case. -/
def HexDigit (c : Char) (n : Nat) : Prop :=
  "0123456789abcdef".toList[n]? = some c ∨ "0123456789ABCDEF".toList[n]? = some c
deriving Decidable

/-- `c` is the octal digit of value `n`. -/
def OctalDigit (c : Char) (n : Nat) : Prop := "01234567".toList[n]? = some c
deriving Decidable

/-- What holds of the characters with the codes within bounds holds of each one between these. -/
theorem of_between {P : Char → Prop} {a b c : Char} (hc : a ≤ c ∧ c ≤ b)
    (h : ∀ n ≤ b.toNat, a.toNat ≤ n → P (Char.ofNat n)) :
  P c
  := by
  rw [← Char.ofNat_toNat c]
  exact h c.toNat hc.2 hc.1

theorem hexDigit?_eq_some {c : Char} {n : Nat} :
  hexDigit? c = some n ↔ HexDigit c n
  := by
  constructor
  · intro h
    unfold hexDigit? at h
    split_ifs at h with hdigit hsmall hcapital
    · obtain rfl := Option.some.inj h
      exact of_between (P := fun c => HexDigit c (c.toNat - '0'.toNat)) hdigit (by decide)
    · obtain rfl := Option.some.inj h
      exact of_between (P := fun c => HexDigit c (c.toNat - 'a'.toNat + 10)) hsmall (by decide)
    · obtain rfl := Option.some.inj h
      exact of_between (P := fun c => HexDigit c (c.toNat - 'A'.toNat + 10)) hcapital (by decide)
  · intro h
    have hn : n < 16 := by
      rcases h with h | h
      · exact (List.getElem?_eq_some_iff.mp h).1
      · exact (List.getElem?_eq_some_iff.mp h).1
    interval_cases n <;> rcases h with h | h <;> obtain rfl := Option.some.inj h <;> rfl

theorem OctalDigit.lt_eight {c : Char} {n : Nat} (h : OctalDigit c n) :
  n < 8
  := (List.getElem?_eq_some_iff.mp h).1

theorem octalDigit_iff {c : Char} {n : Nat} :
  OctalDigit c n ↔ ('0' ≤ c ∧ c ≤ '7') ∧ n = c.toNat - 48
  := by
  constructor
  · intro h
    have hn := h.lt_eight
    interval_cases n <;> obtain rfl := Option.some.inj h <;> decide
  · rintro ⟨hc, rfl⟩
    exact of_between (P := fun c => OctalDigit c (c.toNat - 48)) hc (by decide)

/-! ### Numbers -/

/-- Four hexadecimal digits behind a `u`, or three octal ones, write the number of a character. -/
inductive Numbered : List Char → Char → Prop where
  | unicode {a b c d x : Char} {p q r s : Nat} (first : HexDigit a p) (second : HexDigit b q)
      (third : HexDigit c r) (fourth : HexDigit d s)
      (toNat_eq : x.toNat = ((p * 16 + q) * 16 + r) * 16 + s) : Numbered ['u', a, b, c, d] x
  | octal {a b c x : Char} {p q r : Nat} (first : OctalDigit a p) (le_three : p ≤ 3)
      (second : OctalDigit b q) (third : OctalDigit c r)
      (toNat_eq : x.toNat = p * 64 + q * 8 + r) : Numbered [a, b, c] x

/-- A plus sign and three hexadecimal digits behind a `u` write the number of a character. -/
inductive Signed : List Char → Char → Prop where
  | mk {b c d x : Char} {q r s : Nat} (second : HexDigit b q) (third : HexDigit c r)
      (fourth : HexDigit d s) (toNat_eq : x.toNat = (q * 16 + r) * 16 + s) :
      Signed ['u', '+', b, c, d] x

/-- The characters that are read as the number of a character. -/
def Accepted (w : List Char) (x : Char) : Prop := Numbered w x ∨ Signed w x

variable {a b c d x y : Char} {v w body rest value : List Char}

theorem toNat_ofNat {n : Nat} (h : n.isValidChar) :
  (Char.ofNat n).toNat = n
  := by
  rw [Char.ofNat, dif_pos h]
  rfl

theorem scalar?_eq_some {n : Nat} :
  scalar? n = some x ↔ x.toNat = n
  := by
  unfold scalar?
  constructor
  · intro h
    split_ifs at h with hn
    obtain rfl := Option.some.inj h
    exact toNat_ofNat hn
  · rintro rfl
    have hx : x.toNat.isValidChar := x.valid
    rw [if_pos hx, Char.ofNat_toNat]

theorem not_hexDigit_plus {n : Nat} :
  ¬ HexDigit '+' n
  := by
  rw [← hexDigit?_eq_some]
  exact nofun

theorem hexNumber?_three {n : Nat} :
  hexNumber? [b, c, d] = some n ↔
    ∃ q r s, HexDigit b q ∧ HexDigit c r ∧ HexDigit d s ∧ (q * 16 + r) * 16 + s = n
  := by
  simp [hexNumber?, Option.bind_eq_some_iff, hexDigit?_eq_some]

theorem hexNumber?_four {n : Nat} :
  hexNumber? [a, b, c, d] = some n ↔
    ∃ p q r s, HexDigit a p ∧ HexDigit b q ∧ HexDigit c r ∧ HexDigit d s ∧
      ((p * 16 + q) * 16 + r) * 16 + s = n
  := by
  simp [hexNumber?, Option.bind_eq_some_iff, hexDigit?_eq_some, and_assoc]

theorem unicodeEscape?_eq_some :
  unicodeEscape? a b c d = some x ↔ Accepted ['u', a, b, c, d] x
  := by
  simp only [unicodeEscape?, Option.bind_eq_some_iff, scalar?_eq_some]
  constructor
  · rintro ⟨n, hn, hx⟩
    split at hn
    · next ha =>
        obtain ⟨q, r, s, hb, hc, hd, rfl⟩ := hexNumber?_three.mp hn
        subst ha
        exact .inr (.mk hb hc hd hx)
    · obtain ⟨p, q, r, s, ha, hb, hc, hd, rfl⟩ := hexNumber?_four.mp hn
      exact .inl (.unicode ha hb hc hd hx)
  · rintro (h | h)
    · cases h with
      | unicode first second third fourth toNat_eq =>
          have ha : a ≠ '+' := by
            rintro rfl
            exact not_hexDigit_plus first
          rw [if_neg ha]
          exact ⟨_, hexNumber?_four.mpr ⟨_, _, _, _, first, second, third, fourth, rfl⟩, toNat_eq⟩
    · cases h with
      | mk second third fourth toNat_eq =>
          exact ⟨_, hexNumber?_three.mpr ⟨_, _, _, second, third, fourth, rfl⟩, toNat_eq⟩

theorem octalEscape?_eq_some :
  octalEscape? a b c = some x ↔ Accepted [a, b, c] x
  := by
  constructor
  · intro h
    unfold octalEscape? at h
    split_ifs at h with hdigits
    obtain ⟨hlow, hhigh, hb, hb', hc, hc'⟩ := hdigits
    obtain rfl := Option.some.inj h
    obtain ⟨hfirst, hthree⟩ : OctalDigit a (a.toNat - 48) ∧ a.toNat - 48 ≤ 3 :=
      of_between (P := fun a => OctalDigit a (a.toNat - 48) ∧ a.toNat - 48 ≤ 3) ⟨hlow, hhigh⟩
        (by decide)
    have hsecond : OctalDigit b (b.toNat - 48) := octalDigit_iff.mpr ⟨⟨hb, hb'⟩, rfl⟩
    have hthird : OctalDigit c (c.toNat - 48) := octalDigit_iff.mpr ⟨⟨hc, hc'⟩, rfl⟩
    refine .inl (.octal hfirst hthree hsecond hthird (toNat_ofNat (.inl ?_)))
    have hb := hsecond.lt_eight
    have hc := hthird.lt_eight
    omega
  · rintro (h | h)
    · cases h with
      | octal first le_three second third toNat_eq =>
          obtain ⟨⟨ha, -⟩, rfl⟩ := octalDigit_iff.mp first
          obtain ⟨⟨hb, hb'⟩, rfl⟩ := octalDigit_iff.mp second
          obtain ⟨⟨hc, hc'⟩, rfl⟩ := octalDigit_iff.mp third
          have ha' : a ≤ '3' := by
            change a.toNat ≤ 51
            omega
          rw [octalEscape?, if_pos ⟨ha, ha', hb, hb', hc, hc'⟩, ← toNat_eq, Char.ofNat_toNat]
    · cases h

/-! ### Single characters -/

/-- What a backslash and a character that no number begins with stand for. -/
inductive StandsFor : Char → List Char → Prop where
  | control {c x : Char} (isControl : (c, x) ∈ [('0', '\x00'), ('b', '\x08'), ('n', '\n'),
      ('r', '\r'), ('t', '\t'), ('Z', '\x1a')]) : StandsFor c [x]
  | pattern {c : Char} (isPattern : c = '%' ∨ c = '_') : StandsFor c ['\\', c]
  | itself {c : Char} (isOther : c ∉ ['0', 'b', 'n', 'r', 't', 'Z', '%', '_']) : StandsFor c [c]

theorem standsFor_iff :
  StandsFor c v ↔ v = simpleEscape c
  := by
  constructor
  · intro h
    cases h with
    | control isControl =>
        simp only [List.mem_cons, Prod.mk.injEq, List.not_mem_nil, or_false] at isControl
        rcases isControl with ⟨rfl, rfl⟩ | ⟨rfl, rfl⟩ | ⟨rfl, rfl⟩ | ⟨rfl, rfl⟩ | ⟨rfl, rfl⟩ |
          ⟨rfl, rfl⟩ <;> rfl
    | pattern isPattern => rcases isPattern with rfl | rfl <;> rfl
    | itself isOther =>
        unfold simpleEscape
        split <;> simp_all
  · rintro rfl
    unfold simpleEscape
    split
    case h_7 | h_8 => exact .pattern (by decide)
    case h_9 => exact .itself (by simp_all)
    all_goals exact .control (by decide)

/-! ### Bodies of literals -/

/-- What the characters between the quotes of a literal denote, where some of them, behind a
backslash, are read as the number of a character. -/
inductive Denotes (numbers : List Char → Char → Prop) : List Char → List Char → Prop where
  | nil : Denotes numbers [] []
  | plain {c : Char} {rest value : List Char} (isPlain : c ≠ '\\')
      (behind : Denotes numbers rest value) : Denotes numbers (c :: rest) (c :: value)
  | number {w rest value : List Char} {x : Char} (isNumber : numbers w x)
      (behind : Denotes numbers rest value) :
      Denotes numbers ('\\' :: (w ++ rest)) (x :: value)
  | single {c : Char} {v rest value : List Char}
      (noNumber : ∀ w x, numbers w x → ¬ w <+: c :: rest) (standsFor : StandsFor c v)
      (behind : Denotes numbers rest value) :
      Denotes numbers ('\\' :: c :: rest) (v ++ value)
  | last : Denotes numbers ['\\'] ['\\']

/-- The numbers are those that the two escapes read. -/
theorem Accepted.cases (h : Accepted w x) :
  (∃ a b c d, w = ['u', a, b, c, d] ∧ unicodeEscape? a b c d = some x) ∨
    ∃ a b c, w = [a, b, c] ∧ octalEscape? a b c = some x
  := by
  rcases h with h | h
  · have haccepted : Accepted w x := .inl h
    cases h with
    | unicode => exact .inl ⟨_, _, _, _, rfl, unicodeEscape?_eq_some.mpr haccepted⟩
    | octal => exact .inr ⟨_, _, _, rfl, octalEscape?_eq_some.mpr haccepted⟩
  · have haccepted : Accepted w x := .inr h
    cases h
    exact .inl ⟨_, _, _, _, rfl, unicodeEscape?_eq_some.mpr haccepted⟩

@[simp]
theorem octalEscape?_u :
  octalEscape? 'u' b c = none
  := rfl

/-! ### What a body denotes -/

/-- A number has characters, and no other number begins where it does. -/
structure Apart (numbers : List Char → Char → Prop) : Prop where
  nonempty : ∀ x, ¬ numbers [] x
  unique : ∀ {w w' rest rest' : List Char} {x y : Char}, numbers w x → numbers w' y →
    w ++ rest = w' ++ rest' → w = w' ∧ x = y

theorem accepted_apart :
  Apart Accepted
  := by
  constructor
  · rintro x h
    rcases h.cases with ⟨a, b, c, d, hw, -⟩ | ⟨a, b, c, hw, -⟩ <;> simp at hw
  · intro w w' rest rest' x y hw hw' hrest
    obtain ⟨a, b, c, d, rfl, hx⟩ | ⟨a, b, c, rfl, hx⟩ := hw.cases <;>
      obtain ⟨a', b', c', d', rfl, hy⟩ | ⟨a', b', c', rfl, hy⟩ := hw'.cases <;>
      simp only [List.cons_append, List.nil_append, List.cons.injEq, true_and] at hrest
    · obtain ⟨rfl, rfl, rfl, rfl, -⟩ := hrest
      simp_all
    · obtain ⟨rfl, -⟩ := hrest
      simp at hy
    · obtain ⟨rfl, -⟩ := hrest
      simp at hx
    · obtain ⟨rfl, rfl, rfl, -⟩ := hrest
      simp_all

theorem numbered_apart :
  Apart Numbered
  := ⟨fun x h => accepted_apart.nonempty x (.inl h),
    fun hw hw' => accepted_apart.unique (.inl hw) (.inl hw')⟩

section

variable {numbers : List Char → Char → Prop}

theorem Denotes.of_plain (h : Denotes numbers (c :: rest) value) (hc : c ≠ '\\') :
  ∃ v, value = c :: v ∧ Denotes numbers rest v
  := by
  cases h with
  | plain _ behind => exact ⟨_, rfl, behind⟩
  | number | single | last => contradiction

/-- Behind a backslash stands a number, or a single character is taken, or nothing is left. -/
theorem Denotes.of_backslash (h : Denotes numbers ('\\' :: body) value) :
  (∃ w rest x v, body = w ++ rest ∧ value = x :: v ∧ numbers w x ∧ Denotes numbers rest v) ∨
  (∃ c rest v v', body = c :: rest ∧ value = v ++ v' ∧ (∀ w x, numbers w x → ¬ w <+: c :: rest) ∧
    StandsFor c v ∧ Denotes numbers rest v') ∨
  body = [] ∧ value = ['\\']
  := by
  generalize hcs : '\\' :: body = cs at h
  cases h with
  | nil => contradiction
  | plain isPlain => exact absurd (List.cons.inj hcs).1.symm isPlain
  | number isNumber behind =>
      exact .inl ⟨_, _, _, _, (List.cons.inj hcs).2, rfl, isNumber, behind⟩
  | single noNumber standsFor behind =>
      exact .inr (.inl ⟨_, _, _, _, (List.cons.inj hcs).2, rfl, noNumber, standsFor, behind⟩)
  | last => exact .inr (.inr ⟨(List.cons.inj hcs).2, rfl⟩)

/-- A body denotes one value at most. -/
theorem Denotes.unique {value' : List Char} (hnumbers : Apart numbers)
    (h : Denotes numbers body value) (h' : Denotes numbers body value') :
  value = value'
  := by
  induction h generalizing value' with
  | nil =>
      cases h'
      rfl
  | plain isPlain _ ih =>
      obtain ⟨v, rfl, hv⟩ := h'.of_plain isPlain
      rw [ih hv]
  | @number w rest value x isNumber behind ih =>
      rcases h'.of_backslash with ⟨w', rest', x', v, hw, rfl, hnumber, hv⟩ |
        ⟨c, rest', v, v', hc, rfl, hnone, -, hv⟩ | ⟨hnil, rfl⟩
      · obtain ⟨rfl, rfl⟩ := hnumbers.unique isNumber hnumber hw
        rw [ih (List.append_cancel_left hw ▸ hv)]
      · exact absurd ⟨_, hc⟩ (hnone w x isNumber)
      · obtain ⟨rfl, -⟩ := List.append_eq_nil_iff.mp hnil
        exact absurd isNumber (hnumbers.nonempty x)
  | @single c v rest value noNumber standsFor behind ih =>
      rcases h'.of_backslash with ⟨w', rest', x', v, hw, rfl, hnumber, hv⟩ |
        ⟨c, rest', v, v', hc, rfl, hnone, hstands, hv⟩ | ⟨hnil, rfl⟩
      · exact absurd ⟨_, hw.symm⟩ (noNumber _ _ hnumber)
      · obtain ⟨rfl, rfl⟩ := List.cons.inj hc
        rw [ih hv, standsFor_iff.mp standsFor, standsFor_iff.mp hstands]
      · contradiction
  | last =>
      rcases h'.of_backslash with ⟨w', rest', x', v, hw, rfl, hnumber, hv⟩ |
        ⟨c, rest', v, v', hc, rfl, hnone, hstands, hv⟩ | ⟨-, rfl⟩
      · obtain ⟨rfl, -⟩ := List.append_eq_nil_iff.mp hw.symm
        exact absurd hnumber (hnumbers.nonempty _)
      · contradiction
      · rfl

/-- Every body denotes a value. -/
theorem exists_denotes (numbers : List Char → Char → Prop) (body : List Char) :
  ∃ value, Denotes numbers body value
  := by
  induction hn : body.length using Nat.strong_induction_on generalizing body with
  | _ n ih =>
      subst hn
      cases body with
      | nil => exact ⟨_, .nil⟩
      | cons c rest =>
          rw [List.length_cons] at ih
          by_cases hc : c = '\\'
          · subst hc
            by_cases hnumber : ∃ w x more, numbers w x ∧ w ++ more = rest
            · obtain ⟨w, x, more, hw, rfl⟩ := hnumber
              rw [List.length_append] at ih
              obtain ⟨value, hvalue⟩ := ih more.length (by omega) more rfl
              exact ⟨_, .number hw hvalue⟩
            · cases rest with
              | nil => exact ⟨_, .last⟩
              | cons c rest =>
                  rw [List.length_cons] at ih
                  obtain ⟨value, hvalue⟩ := ih rest.length (by omega) rest rfl
                  refine ⟨_, .single ?_ (standsFor_iff.mpr rfl) hvalue⟩
                  rintro w x hw ⟨more, hmore⟩
                  exact hnumber ⟨w, x, more, hw, hmore⟩
          · obtain ⟨value, hvalue⟩ := ih rest.length (by omega) rest rfl
            exact ⟨_, .plain hc hvalue⟩

end

/-- Literals are read as what they denote if a plus sign may stand for a digit. -/
theorem denotes_decode (body : List Char) :
  Denotes Accepted body (decode body)
  := by
  fun_induction decode body with
  | case1 a b c d rest x hx ih =>
      exact .number (w := ['u', a, b, c, d]) (unicodeEscape?_eq_some.mp hx) ih
  | case2 a b c d rest hnone ih =>
      refine .single ?_ (standsFor_iff.mpr rfl) ih
      rintro w x hw ⟨more, hmore⟩
      obtain ⟨a, b, c, d, rfl, hx⟩ | ⟨a, b, c, rfl, hx⟩ := hw.cases
      · obtain ⟨rfl, rfl, rfl, rfl, rfl⟩ : _ ∧ _ ∧ _ ∧ _ ∧ _ := by simpa using hmore
        simp [hnone] at hx
      · obtain ⟨rfl, -⟩ : _ ∧ _ := by simpa using hmore
        simp at hx
  | case3 a b c rest _ x hx ih =>
      exact .number (w := [a, b, c]) (octalEscape?_eq_some.mp hx) ih
  | case4 a b c rest hshort hnone ih =>
      refine .single ?_ (standsFor_iff.mpr rfl) ih
      rintro w x hw ⟨more, hmore⟩
      obtain ⟨a, b, c, d, rfl, hx⟩ | ⟨a, b, c, rfl, hx⟩ := hw.cases
      · obtain ⟨rfl, -, -, hrest⟩ : _ ∧ _ ∧ _ ∧ _ := by simpa using hmore
        exact hshort _ _ _ rfl hrest.symm
      · obtain ⟨rfl, rfl, rfl, -⟩ : _ ∧ _ ∧ _ ∧ _ := by simpa using hmore
        simp [hnone] at hx
  | case5 a rest _ hshort ih =>
      refine .single ?_ (standsFor_iff.mpr rfl) ih
      rintro w x hw ⟨more, hmore⟩
      obtain ⟨a, b, c, d, rfl, -⟩ | ⟨a, b, c, rfl, -⟩ := hw.cases
      · exact hshort _ _ _ (List.cons.inj hmore).2.symm
      · exact hshort _ _ _ (List.cons.inj hmore).2.symm
  | case6 c rest _ _ hlast ih =>
      by_cases hc : c = '\\'
      · subst hc
        cases rest with
        | nil => exact .last
        | cons a rest => exact (hlast a rest rfl rfl).elim
      · exact .plain hc ih
  | case7 => exact .nil

/-! ### Signs -/

/-- Behind a backslash that is not itself escaped, a number with a sign stands. -/
inductive HasSigned : List Char → Prop where
  | here {w : List Char} {x : Char} (isSigned : Signed w x) (rest : List Char) :
      HasSigned ('\\' :: (w ++ rest))
  | plain {c : Char} {rest : List Char} (isPlain : c ≠ '\\') (behind : HasSigned rest) :
      HasSigned (c :: rest)
  | pair (c : Char) {rest : List Char} (behind : HasSigned rest) : HasSigned ('\\' :: c :: rest)

theorem hasSigned_plain (hc : c ≠ '\\') :
  HasSigned (c :: rest) ↔ HasSigned rest
  := by
  constructor
  · intro h
    cases h with
    | plain _ behind => exact behind
    | here | pair => contradiction
  · exact .plain hc

theorem hasSigned_append (hw : '\\' ∉ w) :
  HasSigned (w ++ rest) ↔ HasSigned rest
  := by
  induction w with
  | nil => rfl
  | cons c w ih =>
      rw [List.mem_cons, not_or] at hw
      rw [List.cons_append, hasSigned_plain (Ne.symm hw.1), ih hw.2]

theorem hasSigned_backslash :
  HasSigned ('\\' :: c :: rest) ↔ (∃ w x, Signed w x ∧ w <+: c :: rest) ∨ HasSigned rest
  := by
  constructor
  · generalize hcs : '\\' :: c :: rest = cs
    intro h
    cases h with
    | here isSigned more => exact .inl ⟨_, _, isSigned, more, (List.cons.inj hcs).2.symm⟩
    | plain isPlain => exact absurd (List.cons.inj hcs).1.symm isPlain
    | pair c behind => exact .inr ((List.cons.inj (List.cons.inj hcs).2).2 ▸ behind)
  · rintro (⟨w, x, hw, more, hmore⟩ | h)
    · exact hmore ▸ .here hw more
    · exact .pair c h

theorem HexDigit.ne_backslash {n : Nat} (h : HexDigit c n) :
  '\\' ≠ c
  := by
  rintro rfl
  rw [← hexDigit?_eq_some] at h
  contradiction

theorem OctalDigit.ne_backslash {n : Nat} (h : OctalDigit c n) :
  '\\' ≠ c
  := by
  rintro rfl
  obtain ⟨⟨-, hc⟩, -⟩ := octalDigit_iff.mp h
  exact absurd hc (by decide)

theorem Numbered.exists_cons (h : Numbered w x) :
  ∃ c cs, w = c :: cs ∧ '\\' ∉ cs
  := by
  cases h with
  | unicode first second third fourth =>
      refine ⟨_, _, rfl, ?_⟩
      simp [first.ne_backslash, second.ne_backslash, third.ne_backslash, fourth.ne_backslash]
  | octal _ _ second third =>
      refine ⟨_, _, rfl, ?_⟩
      simp [second.ne_backslash, third.ne_backslash]

theorem Signed.exists_cons (h : Signed w x) :
  ∃ cs, w = 'u' :: cs ∧ '\\' ∉ cs ∧ cs.length = 4
  := by
  cases h with
  | mk second third fourth =>
      refine ⟨_, rfl, ?_, rfl⟩
      simp [second.ne_backslash, third.ne_backslash, fourth.ne_backslash]

theorem Numbered.not_signed (h : Numbered w x) :
  ¬ Signed w y
  := by
  rintro ⟨⟩
  cases h with
  | unicode first => exact not_hexDigit_plus first

/-- No sign stands in a number, and it hides none. -/
theorem hasSigned_number (hw : Numbered w x) :
  HasSigned ('\\' :: (w ++ rest)) ↔ HasSigned rest
  := by
  have hsigned : ¬ ∃ w' y, Signed w' y ∧ w' <+: w ++ rest := by
    rintro ⟨w', y, hw', more, hmore⟩
    obtain ⟨rfl, -⟩ := accepted_apart.unique (.inl hw) (.inr hw') hmore.symm
    exact hw.not_signed hw'
  obtain ⟨c, cs, rfl, hcs⟩ := hw.exists_cons
  rw [List.cons_append] at hsigned ⊢
  rw [hasSigned_backslash, or_iff_right hsigned, hasSigned_append hcs]

/-- Where no sign stands in a number, the value is the one denoted. -/
theorem decode_of_not_hasSigned (h : Denotes Numbered body value) (hbody : ¬ HasSigned body) :
  decode body = value
  := by
  suffices Denotes Accepted body value from (denotes_decode body).unique accepted_apart this
  induction h with
  | nil => exact .nil
  | plain isPlain _ ih => exact .plain isPlain (ih (mt (hasSigned_plain isPlain).mpr hbody))
  | number isNumber _ ih =>
      exact .number (.inl isNumber) (ih (mt (hasSigned_number isNumber).mpr hbody))
  | single noNumber standsFor _ ih =>
      rw [hasSigned_backslash, not_or] at hbody
      refine .single ?_ standsFor (ih hbody.2)
      rintro w x (hw | hw) hprefix
      · exact noNumber w x hw hprefix
      · exact hbody.1 ⟨w, x, hw, hprefix⟩
  | last => exact .last

theorem decode_plain (hc : c ≠ '\\') :
  decode (c :: rest) = c :: decode rest
  := (denotes_decode _).unique accepted_apart (.plain hc (denotes_decode rest))

theorem decode_append (hw : '\\' ∉ w) :
  decode (w ++ rest) = w ++ decode rest
  := by
  induction w with
  | nil => rfl
  | cons c w ih =>
      rw [List.mem_cons, not_or] at hw
      rw [List.cons_append, decode_plain (Ne.symm hw.1), ih hw.2, List.cons_append]

theorem decode_number (hw : Accepted w x) :
  decode ('\\' :: (w ++ rest)) = x :: decode rest
  := (denotes_decode _).unique accepted_apart (.number hw (denotes_decode rest))

theorem decode_single (hnone : ∀ w x, Accepted w x → ¬ w <+: c :: rest) (hv : StandsFor c v) :
  decode ('\\' :: c :: rest) = v ++ decode rest
  := (denotes_decode _).unique accepted_apart (.single hnone hv (denotes_decode rest))

/-- A number with a sign is read as one character where five are denoted, so the value is short. -/
theorem length_decode (h : Denotes Numbered body value) :
  (decode body).length ≤ value.length ∧ (HasSigned body → (decode body).length < value.length)
  := by
  induction h with
  | nil => exact ⟨Nat.le_refl _, nofun⟩
  | plain isPlain _ ih =>
      rw [decode_plain isPlain, hasSigned_plain isPlain, List.length_cons, List.length_cons]
      exact ⟨Nat.succ_le_succ ih.1, fun h => Nat.succ_lt_succ (ih.2 h)⟩
  | number isNumber _ ih =>
      rw [decode_number (.inl isNumber), hasSigned_number isNumber, List.length_cons,
        List.length_cons]
      exact ⟨Nat.succ_le_succ ih.1, fun h => Nat.succ_lt_succ (ih.2 h)⟩
  | @single c v rest value noNumber standsFor _ ih =>
      by_cases hsigned : ∃ w x, Signed w x ∧ w <+: c :: rest
      · -- The four characters behind the `u` are part of the number, but denote themselves.
        obtain ⟨w, x, hw, more, hmore⟩ := hsigned
        have hnumber : decode ('\\' :: c :: rest) = x :: decode more := by
          rw [← hmore, decode_number (.inr hw)]
        obtain ⟨cs, rfl, hcs, hlength⟩ := hw.exists_cons
        obtain ⟨rfl, hrest⟩ : 'u' = c ∧ cs ++ more = rest := List.cons.inj hmore
        obtain rfl := standsFor_iff.mp standsFor
        have hle := ih.1
        rw [← hrest, decode_append hcs, List.length_append] at hle
        rw [hnumber, List.length_cons, List.length_append]
        have hone : (simpleEscape 'u').length = 1 := rfl
        exact ⟨by omega, fun _ => by omega⟩
      · have hnone : ∀ w x, Accepted w x → ¬ w <+: c :: rest := by
          rintro w x (hw | hw) hprefix
          · exact noNumber w x hw hprefix
          · exact hsigned ⟨w, x, hw, hprefix⟩
        rw [decode_single hnone standsFor, hasSigned_backslash, or_iff_right hsigned,
          List.length_append, List.length_append]
        exact ⟨Nat.add_le_add_left ih.1 _, fun h => Nat.add_lt_add_left (ih.2 h) _⟩
  | last =>
      refine ⟨Nat.le_refl _, fun h => ?_⟩
      generalize hcs : ['\\'] = cs at h
      cases h with
      | here isSigned =>
          cases isSigned
          simp at hcs
      | plain isPlain => exact absurd (List.cons.inj hcs).1.symm isPlain
      | pair => simp at hcs

/-- **The value of a string literal.**  The characters between the quotes of a literal denote one
value.  The literal is read as what they denote if a plus sign and three hexadecimal digits write a
number too, and so as that value exactly if no such escape stands among them. -/
theorem unescape_denotes (quote : Char) (body : List Char) :
  ∃ value, Denotes Numbered body value ∧ (∀ v, Denotes Numbered body v → v = value) ∧
    (unescape (String.ofList (quote :: body ++ [quote])) = String.ofList value ↔
      ¬ HasSigned body) ∧
    Denotes Accepted body (unescape (String.ofList (quote :: body ++ [quote]))).toList
  := by
  obtain ⟨value, hvalue⟩ := exists_denotes Numbered body
  have hunescape : unescape (String.ofList (quote :: body ++ [quote])) =
      String.ofList (decode body) := by
    simp [unescape, betweenQuotes]
  rw [hunescape, String.toList_ofList]
  refine ⟨value, hvalue, fun v hv => hv.unique numbered_apart hvalue, ?_, denotes_decode body⟩
  rw [String.ofList_inj]
  constructor
  · intro heq hsigned
    have hlength := (length_decode hvalue).2 hsigned
    rw [heq] at hlength
    exact Nat.lt_irrefl _ hlength
  · exact decode_of_not_hasSigned hvalue

/-- A sign is taken for a digit: the literal is read as one character, where five are denoted. -/
theorem unescape_sign :
  (Token.list "'\\u+041'").toOption.map (·.map (·.kind)) = some [.string, .eof] ∧
    Denotes Numbered "\\u+041".toList "u+041".toList ∧ unescape "'\\u+041'" = "A"
  := by
  refine ⟨by decide +kernel, ?_, by decide +kernel⟩
  have hnone : ∀ w x, Numbered w x → ¬ w <+: "u+041".toList := by
    rintro w x h hprefix
    obtain ⟨more, hmore⟩ := hprefix
    cases h with
    | unicode first =>
        obtain ⟨rfl, -⟩ : _ ∧ _ := by simpa using hmore
        exact not_hexDigit_plus first
    | octal first =>
        obtain ⟨rfl, -⟩ : _ ∧ _ := by simpa using hmore
        exact absurd (octalDigit_iff.mp first).1 (by decide)
  have hbehind : Denotes Numbered "+041".toList "+041".toList :=
    .plain (by decide) (.plain (by decide) (.plain (by decide) (.plain (by decide) .nil)))
  exact .single (v := ['u']) hnone (.itself (by decide)) hbehind

end SqlFront.Text
