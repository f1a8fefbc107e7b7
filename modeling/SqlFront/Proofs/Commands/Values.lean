import Mathlib.Algebra.Ring.Int.Defs
import Mathlib.Algebra.Ring.Nat
import SqlFront.Command.Value
import SqlFront.Proofs.Grammar.Ensures
import SqlFront.Proofs.Text.Case
import SqlFront.Proofs.Tokens.Place

/-!
# Values of constants

A constant that is written in a text has a value unless it is a number out of the range of its form
or a byte length with a minus sign: `Value.ofConstant_eq_error` says which constants are refused.
-/

namespace SqlFront

open Match

/-! ### Digits -/

namespace Number

variable {ds : List Char}

theorem ofDigits?_digits (h : Digits ds) :
  ofDigits? ds = some (appendDigits 0 ds)
  := if_pos ⟨h.1, List.all_eq_true.mpr h.2⟩

theorem integer?_digits (h : Digits ds) :
  integer? ds = some (appendDigits 0 ds : Int)
  := by
  unfold integer?
  split
  · simpa using h.2 '+' List.mem_cons_self
  · simpa using h.2 '-' List.mem_cons_self
  · rw [ofDigits?_digits h]
    rfl

theorem integer?_minus (h : Digits ds) :
  integer? ('-' :: ds) = some (-(appendDigits 0 ds : Int))
  := by
  rw [integer?, ofDigits?_digits h]
  rfl

theorem natural?_digits (h : Digits ds) :
  natural? ds = some (appendDigits 0 ds)
  := by
  unfold natural?
  split
  · simpa using h.2 '+' List.mem_cons_self
  · apply ofDigits?_digits h

theorem fitsSigned_eq_false {bits : Nat} {n : Int} :
  fitsSigned bits n = false ↔ n < -2 ^ (bits - 1) ∨ 2 ^ (bits - 1) ≤ n
  := by
  have hword : (wordSize (bits - 1) : Int) = 2 ^ (bits - 1) := by
    simp [wordSize]
  simp only [fitsSigned, leastSigned, greatestSigned, hword, Bool.and_eq_false_iff,
    decide_eq_false_iff_not]
  omega

end Number

/-! ### Refusals -/

/-- The name and the number of bits of the signed words that a form of numbers stands for. -/
def NumberForm.signed? : NumberForm → Option (String × Nat)
  | bigInt => some ("bigint", 64)
  | smallInt => some ("smallint", 16)
  | tinyInt => some ("tinyint", 8)
  | _ => none

/-- Why a number is refused: it is out of the range of its form, or it is a negative byte length.
The last character marks the form. -/
inductive NumberForm.Refuses (text : String) : NumberForm → Cause → Prop where
  | signed {form : NumberForm} {type : String} {bits : Nat} {n : Int}
      (isSigned : form.signed? = some (type, bits))
      (value : Number.integer? text.toList.dropLast = some n)
      (outside : n < -2 ^ (bits - 1) ∨ 2 ^ (bits - 1) ≤ n) :
      Refuses text form (.numberOutOfRange text
        ⟨type, toString (-2 ^ (bits - 1) : Int), toString (2 ^ (bits - 1) - 1 : Int)⟩)
  | negativeLength (sign : text.toList.head? = some '-') :
      Refuses text .byteLength (.negativeByteLength text)
  | length {n bytes : Nat} (value : Number.natural? text.toList.dropLast = some n)
      (isUnit : (text.toList.getLast?.bind fun c => Value.byteUnit? c.toUpper) = some bytes)
      (large : 2 ^ 64 ≤ n * bytes) :
      Refuses text .byteLength (.numberOutOfRange text ⟨"byte length", "0", "18446744073709551615"⟩)
  | double (infinite : Double.ofText? text.toList.dropLast = none) :
      Refuses text .double (.numberOutOfRange text
        ⟨"double", "-1.7976931348623157e308", "1.7976931348623157e308"⟩)

/-- A literal is refused if it is a number that is. -/
inductive Literal.Refused : Literal → Cause → Prop where
  | number {form : NumberForm} {text : String} {cause : Cause} (h : form.Refuses text cause) :
      Refused (.number form text) cause

variable {text : String} {form : NumberForm} {cause : Cause}

/-! ### The mark of a form -/

/-- Letters are as many bytes. -/
theorem byteLength_of_isAlpha {ls : List Char} (h : ∀ l ∈ ls, l.isAlpha) :
  byteLength ls = ls.length
  := by
  induction ls with
  | nil => rfl
  | cons l ls ih =>
      rw [List.forall_mem_cons] at h
      rw [byteLength, utf8Size_of_isAlpha h.1, ih h.2, List.length_cons, Nat.add_comm]

/-- Letters at the end are dropped by their number. -/
theorem Value.dropBytes_append {front mark : List Char} (h : text.toList = front ++ mark)
    (hmark : ∀ l ∈ mark, l.isAlpha) :
  dropBytes text mark.length = front
  := by
  have hsize : text.utf8ByteSize = SqlFront.byteLength front + mark.length := by
    have htext : text = String.ofList front ++ String.ofList mark := by
      rw [← String.ofList_append, ← h, String.ofList_toList]
    rw [htext, String.utf8ByteSize_append, ← byteLength_eq_utf8ByteSize,
      ← byteLength_eq_utf8ByteSize, byteLength_of_isAlpha hmark]
  rw [dropBytes, hsize, Nat.add_sub_cancel, h, splitBytes_append]

theorem Value.dropBytes_one {l : Char} {front : List Char} (h : text.toList = front ++ [l])
    (hl : l.isAlpha) :
  dropBytes text 1 = front
  := dropBytes_append h (by simpa using hl)

theorem isAlpha_of_mark {l a : Char} (hl : l.toUpper = a) (ha : a.isAlpha) :
  l.isAlpha
  := by
  subst hl
  rwa [isAlpha_toUpper] at ha

namespace NumberForm.Writes

/-- A number of a marked form ends with a letter, and what stands before it is dropped to. -/
theorem exists_digits (h : form.Writes text)
    (hform : form ∈ [bigInt, smallInt, tinyInt, byteLength]) :
  ∃ sign ds l, text.toList = sign ++ ds ++ [l] ∧ (sign = [] ∨ sign = ['-']) ∧ Digits ds ∧
    l.isAlpha ∧ (form = byteLength → l.toUpper ∈ ['B', 'K', 'M', 'G'])
  := by
  have hrule : ∀ {w after : List Char}, NumberRule form w after → ∃ ds l, w = ds ++ [l] ∧
      Digits ds ∧ l.isAlpha ∧ (form = byteLength → l.toUpper ∈ ['B', 'K', 'M', 'G']) := by
    intro w after hrule
    cases hrule with
    | bigInt digits mark | smallInt digits mark | tinyInt digits mark =>
        exact ⟨_, _, rfl, digits, isAlpha_of_mark mark (by decide), by simp⟩
    | @byteLength ds _ l digits mark =>
        have halpha : ∀ a ∈ ['B', 'K', 'M', 'G'], a.isAlpha := by simp [isAlpha_iff]
        exact ⟨_, _, rfl, digits, isAlpha_toUpper _ ▸ halpha _ mark, fun _ => mark⟩
    | _ => simp at hform
  cases h with
  | plain isNumber =>
      obtain ⟨ds, l, hw, hds, hl, hunit⟩ := hrule isNumber
      exact ⟨[], ds, l, by simp [hw], .inl rfl, hds, hl, hunit⟩
  | negative sign isNumber =>
      obtain ⟨ds, l, hw, hds, hl, hunit⟩ := hrule isNumber
      exact ⟨['-'], ds, l, by simp [sign, hw], .inr rfl, hds, hl, hunit⟩

theorem exists_double (h : double.Writes text) :
  ∃ front l, text.toList = front ++ [l] ∧ l.isAlpha
  := by
  have hrule : ∀ {w after : List Char}, NumberRule .double w after →
      ∃ front l, w = front ++ [l] ∧ l.isAlpha := by
    intro w after hrule
    cases hrule with
    | double _ _ mark | pointDouble _ _ mark =>
        exact ⟨_, _, rfl, isAlpha_of_mark mark (by decide)⟩
  cases h with
  | plain isNumber => exact hrule isNumber
  | negative sign isNumber =>
      obtain ⟨front, l, hw, hl⟩ := hrule isNumber
      exact ⟨'-' :: front, l, by rw [sign, hw, List.cons_append], hl⟩

end NumberForm.Writes

/-! ### Refused constants -/

namespace Value

theorem ofMarkedInteger_eq_error {make : Int → Value} {type : String} {bits : Nat}
    (h : form.Writes text) (hform : form ∈ [.bigInt, .smallInt, .tinyInt])
    (hsigned : form.signed? = some (type, bits)) :
  ofMarkedInteger make type bits text = .error cause ↔ form.Refuses text cause
  := by
  obtain ⟨sign, ds, l, htext, hsign, hds, hl, -⟩ := h.exists_digits (by simpa [or_assoc] using Or.inl hform)
  have hdrop := dropBytes_one htext hl
  have hlast : text.toList.dropLast = sign ++ ds := by
    rw [htext, List.dropLast_concat]
  obtain ⟨n, hn⟩ : ∃ n, Number.integer? (sign ++ ds) = some n := by
    rcases hsign with rfl | rfl
    · exact ⟨_, Number.integer?_digits hds⟩
    · exact ⟨_, Number.integer?_minus hds⟩
  have hrange : signedRange type bits =
      ⟨type, toString (-2 ^ (bits - 1) : Int), toString (2 ^ (bits - 1) - 1 : Int)⟩ := by
    simp [signedRange, Number.leastSigned, Number.greatestSigned, Number.wordSize]
  simp only [ofMarkedInteger, hdrop, hn, hrange]
  constructor
  · intro h
    split at h
    · contradiction
    · next hfits =>
        obtain rfl := Except.error.inj h
        apply NumberForm.Refuses.signed hsigned (by rw [hlast, hn])
        apply Number.fitsSigned_eq_false.mp
        simpa using hfits
  · intro h
    cases h with
    | signed isSigned value outside =>
        rw [hlast, hn] at value
        obtain rfl := Option.some.inj value
        rw [hsigned] at isSigned
        obtain ⟨rfl, rfl⟩ := Prod.mk.inj (Option.some.inj isSigned)
        rw [Number.fitsSigned_eq_false.mpr outside]
        rfl
    | negativeLength | length | double => simp at hform

theorem ofByteLength_eq_error (h : NumberForm.byteLength.Writes text) :
  ofByteLength text = .error cause ↔ NumberForm.byteLength.Refuses text cause
  := by
  obtain ⟨sign, ds, l, htext, hsign, hds, hl, hmark⟩ := h.exists_digits (by simp)
  have hdrop := dropBytes_one htext hl
  have hlast : text.toList.dropLast = sign ++ ds := by
    rw [htext, List.dropLast_concat]
  have hunit : (text.toList.getLast?.bind fun c => byteUnit? c.toUpper) = byteUnit? l.toUpper := by
    rw [htext, List.getLast?_concat]
    rfl
  obtain ⟨bytes, hbytes⟩ : ∃ bytes, byteUnit? l.toUpper = some bytes := by
    have hsome : ∀ a ∈ ['B', 'K', 'M', 'G'], (byteUnit? a).isSome := by simp [byteUnit?]
    exact Option.isSome_iff_exists.mp (hsome _ (hmark rfl))
  have hwritten : text.toList = sign ++ (ds ++ [l]) := by
    rw [htext, List.append_assoc]
  rcases hsign with rfl | rfl
  · have hhead : text.toList.head? ≠ some '-' := by
      obtain ⟨d, ds, rfl⟩ := List.exists_cons_of_ne_nil hds.1
      rw [hwritten]
      rintro ⟨⟩
      simpa using hds.2 '-' List.mem_cons_self
    have hn := Number.natural?_digits hds
    rw [List.nil_append] at hdrop hlast
    simp only [ofByteLength, if_neg hhead, hunit, hbytes, hdrop, hn]
    constructor
    · intro h
      split at h
      · contradiction
      · next hlarge =>
          obtain rfl := Except.error.inj h
          apply NumberForm.Refuses.length (by rw [hlast, hn]) (by rw [hunit, hbytes])
          simpa [Number.wordSize] using hlarge
    · intro h
      cases h with
      | signed isSigned => contradiction
      | negativeLength sign => exact (hhead sign).elim
      | length value isUnit large =>
          rw [hlast, hn] at value
          rw [hunit, hbytes] at isUnit
          obtain rfl := Option.some.inj value
          obtain rfl := Option.some.inj isUnit
          rw [if_neg (by simpa [Number.wordSize] using large)]
          rfl
  · have hhead : text.toList.head? = some '-' := by
      rw [hwritten]
      rfl
    simp only [ofByteLength, if_pos hhead]
    constructor
    · intro h
      obtain rfl := Except.error.inj h
      exact .negativeLength hhead
    · intro h
      cases h with
      | signed isSigned => contradiction
      | negativeLength => rfl
      | length value isUnit large =>
          simp [hlast, Number.natural?, Number.ofDigits?] at value

theorem ofDouble_eq_error (h : NumberForm.double.Writes text) :
  ofDouble text = .error cause ↔ NumberForm.double.Refuses text cause
  := by
  obtain ⟨front, l, htext, hl⟩ := h.exists_double
  have hdrop := dropBytes_one htext hl
  have hlast : text.toList.dropLast = front := by
    rw [htext, List.dropLast_concat]
  simp only [ofDouble, hdrop]
  constructor
  · intro h
    split at h
    · contradiction
    · next hnone =>
        obtain rfl := Except.error.inj h
        exact .double (by rw [hlast, hnone])
  · intro h
    cases h with
    | signed isSigned => contradiction
    | double infinite =>
        rw [hlast] at infinite
        rw [infinite]
        rfl

/-- A number that is written as one is refused where it is out of the range of its form, or a
negative byte length. -/
theorem ofNumber_eq_error (h : form.Writes text) :
  ofNumber form text = .error cause ↔ form.Refuses text cause
  := by
  have hnone : form.signed? = none → form ≠ .byteLength → form ≠ .double →
      ¬ form.Refuses text cause := by
    intro hsigned hlength hdouble hrefuses
    cases hrefuses <;> simp_all
  cases form with
  | bigInt | smallInt | tinyInt => apply ofMarkedInteger_eq_error h (by simp) rfl
  | byteLength => apply ofByteLength_eq_error h
  | double => apply ofDouble_eq_error h
  | integer | decimal | bigDecimal =>
      simp only [ofNumber, reduceCtorEq, false_iff]
      exact hnone rfl (by simp) (by simp)

/-- A constant that is written in a text is refused exactly where it is a number that is, and the
fault is its own. -/
theorem ofConstant_eq_error {c : Constant} {e : Fault} (h : c.value.IsWritten) :
  ofConstant c = .error e ↔ ∃ cause, c.value.Refused cause ∧ e = ⟨cause, c.span⟩
  := by
  obtain ⟨value, span⟩ := c
  cases value with
  | number form text =>
      simp only [ofConstant, ofLiteral]
      constructor
      · intro he
        cases hnumber : ofNumber form text with
        | ok v => simp [hnumber, Except.mapError] at he
        | error cause =>
            simp only [hnumber, Except.mapError, Except.error.injEq] at he
            exact ⟨cause, .number ((ofNumber_eq_error h).mp hnumber), he.symm⟩
      · rintro ⟨cause, ⟨hrefuses⟩, rfl⟩
        rw [(ofNumber_eq_error h).mpr hrefuses]
        rfl
  | _ =>
      simp only [ofConstant, ofLiteral, Except.mapError, reduceCtorEq, false_iff]
      rintro ⟨cause, ⟨⟩, -⟩

end Value

end SqlFront
