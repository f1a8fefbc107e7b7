import Mathlib.Data.List.Induction
import Mathlib.Data.Nat.Digits.Defs
import SqlFront.Proofs.Commands.Values
import SqlFront.Proofs.Tokens.Integers

/-!
# Values of integers

What an integer stands for is said by the number that its digits write, its sign and its letter
(`WrittenInteger.meaning`), and that is the value that it is given (`WrittenInteger.ofNumber_text`).
The numbers of statements agree with how they are written (`Constant.agrees`): an integer has the
form that its letter marks, what is cut off a number is its mark and nothing else, and no byte
length lacks a unit.
-/

namespace SqlFront

open Match

namespace WrittenInteger

/-! ### Values -/

/-- The number that the digits write. -/
def magnitude (w : WrittenInteger) : Nat :=
  Nat.ofDigits 10 (w.digits.reverse.map fun d => d.toNat - '0'.toNat)

/-- The number with its sign. -/
def value (w : WrittenInteger) : Int := if w.minus then -(w.magnitude : Int) else w.magnitude

/-- Without a letter, an integer is the narrowest of the signed words that holds the number, and
beyond them the text itself. -/
def narrowest (w : WrittenInteger) : Value :=
  if -2 ^ 31 ≤ w.value ∧ w.value < 2 ^ 31 then .int w.value
  else if -2 ^ 63 ≤ w.value ∧ w.value < 2 ^ 63 then .long w.value
  else .decimal w.text

/-- The signed word of `bits` bits that holds the number. -/
def signedWord (w : WrittenInteger) (make : Int → Value) (type : String) (bits : Nat) :
    Except Cause Value :=
  if -2 ^ (bits - 1) ≤ w.value ∧ w.value < 2 ^ (bits - 1) then .ok (make w.value)
  else .error (.numberOutOfRange w.text
    ⟨type, toString (-2 ^ (bits - 1) : Int), toString (2 ^ (bits - 1) - 1 : Int)⟩)

/-- As many units of `unit` bytes as the number says. -/
def bytes (w : WrittenInteger) (unit : Nat) : Except Cause Value :=
  if w.minus then .error (.negativeByteLength w.text)
  else if w.magnitude * unit < 2 ^ 64 then .ok (.byteLength (w.magnitude * unit))
  else .error (.numberOutOfRange w.text ⟨"byte length", "0", toString (2 ^ 64 - 1)⟩)

/-- What an integer stands for. -/
def meaning (w : WrittenInteger) : Except Cause Value :=
  match w.mark.map Char.toUpper with
  | none => .ok w.narrowest
  | some 'L' => w.signedWord .long "bigint" 64
  | some 'S' => w.signedWord .short "smallint" 16
  | some 'Y' => w.signedWord .byte "tinyint" 8
  | some 'B' => w.bytes (2 ^ 0)
  | some 'K' => w.bytes (2 ^ 10)
  | some 'M' => w.bytes (2 ^ 20)
  | some _ => w.bytes (2 ^ 30)

variable {w : WrittenInteger} {bits : Nat} {l : Char}

/-- Digits are read from the left as their number is defined from the right. -/
theorem appendDigits_eq (ds : List Char) :
  Number.appendDigits 0 ds = Nat.ofDigits 10 (ds.reverse.map fun d => d.toNat - '0'.toNat)
  := by
  induction ds using List.reverseRecOn with
  | nil => rfl
  | append_singleton ds d ih =>
      rw [List.reverse_append, List.reverse_singleton, List.singleton_append, List.map_cons,
        Nat.ofDigits_cons, ← ih, Number.appendDigits, List.foldl_append, List.foldl_cons,
        List.foldl_nil, ← Number.appendDigits]
      omega

theorem integer?_sign (w : WrittenInteger) :
  Number.integer? (w.sign ++ w.digits) = some w.value
  := by
  rw [sign, value, magnitude, ← appendDigits_eq]
  cases w.minus with
  | false => exact Number.integer?_digits w.areDigits
  | true => exact Number.integer?_minus w.areDigits

theorem fitsSigned_value :
  Number.fitsSigned bits w.value = true ↔ -2 ^ (bits - 1) ≤ w.value ∧ w.value < 2 ^ (bits - 1)
  := by
  rw [← Bool.not_eq_false, Number.fitsSigned_eq_false]
  omega

theorem toList_text (hl : w.mark = some l) :
  w.text.toList = w.sign ++ w.digits ++ [l]
  := by
  rw [text, String.toList_ofList, numeral, hl, Option.toList_some, List.append_assoc]

theorem isAlpha_mark (hl : w.mark = some l) :
  l.isAlpha
  := by
  have halpha : ∀ a ∈ ['L', 'S', 'Y', 'B', 'K', 'M', 'G'], a.isAlpha := by simp [isAlpha_iff]
  rw [← isAlpha_toUpper]
  exact halpha _ (w.isMark l hl)

theorem ofPlainInteger_text (hl : w.mark = none) :
  Value.ofPlainInteger w.text = w.narrowest
  := by
  have htext : w.text.toList = w.sign ++ w.digits := by
    rw [text, String.toList_ofList, numeral, hl, Option.toList_none, List.append_nil]
  simp only [Value.ofPlainInteger, htext, integer?_sign, fitsSigned_value, narrowest]

theorem ofMarkedInteger_text (hl : w.mark = some l) (make : Int → Value) (type : String)
    (bits : Nat) :
  Value.ofMarkedInteger make type bits w.text = w.signedWord make type bits
  := by
  have hrange : Value.signedRange type bits =
      ⟨type, toString (-2 ^ (bits - 1) : Int), toString (2 ^ (bits - 1) - 1 : Int)⟩ := by
    simp [Value.signedRange, Number.leastSigned, Number.greatestSigned, Number.wordSize]
  simp only [Value.ofMarkedInteger, Value.dropBytes_one (toList_text hl) (isAlpha_mark hl),
    integer?_sign, fitsSigned_value, hrange, signedWord]

theorem ofByteLength_text (hl : w.mark = some l) {unit : Nat}
    (hunit : Value.byteUnit? l.toUpper = some unit) :
  Value.ofByteLength w.text = w.bytes unit
  := by
  have htext := toList_text hl
  have hlast : (w.text.toList.getLast?.bind fun c => Value.byteUnit? c.toUpper) = some unit := by
    rw [htext, List.getLast?_concat, Option.bind_some, hunit]
  have hdrop := Value.dropBytes_one htext (isAlpha_mark hl)
  have hrange : Value.byteLengthRange = ⟨"byte length", "0", toString (2 ^ 64 - 1)⟩ := rfl
  cases hminus : w.minus with
  | true =>
      have hhead : w.text.toList.head? = some '-' := by
        rw [htext, sign, hminus]
        rfl
      rw [Value.ofByteLength, if_pos hhead, bytes, if_pos hminus]
  | false =>
      have hsign : w.sign = [] := by
        rw [sign, hminus]
        rfl
      have hhead : w.text.toList.head? ≠ some '-' := by
        obtain ⟨d, ds, hds⟩ := List.exists_cons_of_ne_nil w.areDigits.1
        rw [htext, hsign, hds]
        rintro ⟨⟩
        simpa using w.areDigits.2 '-' (by simp [hds])
      rw [hsign, List.nil_append] at hdrop
      have hnatural := Number.natural?_digits w.areDigits
      rw [appendDigits_eq] at hnatural
      simp only [Value.ofByteLength, if_neg hhead, hlast, hdrop, hnatural, hrange, bytes, hminus,
        magnitude]
      rfl

/-- The value of an integer is what it stands for. -/
theorem ofNumber_text (w : WrittenInteger) :
  Value.ofNumber w.form w.text = w.meaning
  := by
  cases hl : w.mark with
  | none =>
      simp only [form, meaning, hl, Option.map_none, Value.ofNumber, ofPlainInteger_text hl]
  | some l =>
      have hmark := w.isMark l hl
      simp only [List.mem_cons, List.not_mem_nil, or_false] at hmark
      simp only [form, meaning, hl, Option.map_some]
      rcases hmark with h | h | h | h | h | h | h
      iterate 3 · simp only [h, Value.ofNumber, ofMarkedInteger_text hl]
      iterate 4
        · simp only [h, Value.ofNumber]
          apply ofByteLength_text hl
          rw [h]
          rfl

end WrittenInteger

/-- An integer that is refused is a fault of the grammar. -/
theorem WrittenInteger.kind_of_meaning {w : WrittenInteger} {cause : Cause}
    (h : w.meaning = .error cause) :
  cause.kind = .grammar
  := by
  have hword : ∀ {make : Int → Value} {type : String} {bits : Nat},
      w.signedWord make type bits = .error cause → cause.kind = .grammar := by
    intro make type bits h
    rw [signedWord] at h
    split at h
    · contradiction
    · obtain rfl := Except.error.inj h
      rfl
  have hbytes : ∀ {unit : Nat}, w.bytes unit = .error cause → cause.kind = .grammar := by
    intro unit h
    rw [bytes] at h
    split at h
    · obtain rfl := Except.error.inj h
      rfl
    · split at h
      · contradiction
      · obtain rfl := Except.error.inj h
        rfl
  unfold meaning at h
  split at h
  · contradiction
  iterate 3 · exact hword h
  iterate 4 · exact hbytes h

/-! ### Numbers in statements -/

/-- What a number is read as agrees with how it is written. -/
structure Constant.Agrees (c : Constant) : Prop where
  /-- An integer has the form that its letter marks, and what it stands for is its value. -/
  meaning : ∀ (w : WrittenInteger) form, c.value = .number form w.text →
    form = w.form ∧ Value.ofConstant c = w.meaning.mapError (⟨·, c.span⟩)
  /-- What has the form of an integer is written as one. -/
  isInteger : ∀ form text, c.value = .number form text →
    form ∈ [.integer, .bigInt, .smallInt, .tinyInt, .byteLength] →
      ∃ w : WrittenInteger, text = w.text
  /-- The mark and nothing else is cut off a number, and there are digits before it. -/
  cut : ∀ form text, c.value = .number form text → ∃ front mark,
    text.toList = front ++ mark ∧ Value.dropBytes text form.markLength = front ∧
      mark.length = form.markLength ∧ (∀ l ∈ mark, l.isAlpha) ∧ ∃ d ∈ front, d.isDigit
  /-- A byte length has a unit. -/
  hasUnit : ∀ text span, Value.ofConstant c ≠ .error ⟨.badByteLength text, span⟩

section

variable {text : String} {form : NumberForm} {w : WrittenInteger}

theorem NumberForm.Writes.exists_text (h : form.Writes text)
    (hform : form ∈ [.integer, .bigInt, .smallInt, .tinyInt, .byteLength]) :
  ∃ w : WrittenInteger, text = w.text
  := by
  cases h with
  | plain isNumber =>
      obtain ⟨w, hminus, hw⟩ := WrittenInteger.exists_of_numberRule isNumber hform false
      refine ⟨w, String.toList_inj.mp ?_⟩
      simp [WrittenInteger.text, WrittenInteger.sign, hminus, hw]
  | negative sign isNumber =>
      obtain ⟨w, hminus, hw⟩ := WrittenInteger.exists_of_numberRule isNumber hform true
      refine ⟨w, String.toList_inj.mp ?_⟩
      simp [WrittenInteger.text, WrittenInteger.sign, hminus, hw, sign]

/-- The sign of an integer is told from its digits. -/
theorem NumberForm.Writes.form_eq (h : form.Writes w.text) :
  form = w.form
  := by
  obtain ⟨c, cs, hw⟩ := List.exists_cons_of_ne_nil w.numeral_ne_nil
  have hne : w.numeral.head? ≠ some '-' := (w.numberRule []).head?_ne
  have htext : w.text.toList = w.sign ++ w.numeral := String.toList_ofList
  cases hminus : w.minus with
  | false =>
      have hsign : w.sign = [] := by
        rw [WrittenInteger.sign, hminus]
        rfl
      rw [hsign, List.nil_append] at htext
      cases h with
      | plain isNumber =>
          rw [htext] at isNumber
          exact WrittenInteger.form_eq isNumber
      | negative sign =>
          rw [← htext, sign] at hne
          exact (hne rfl).elim
  | true =>
      have hsign : w.sign = ['-'] := by
        rw [WrittenInteger.sign, hminus]
        rfl
      rw [hsign, List.singleton_append] at htext
      cases h with
      | plain isNumber =>
          rw [htext] at isNumber
          exact (isNumber.head?_ne rfl).elim
      | negative sign isNumber =>
          obtain rfl := (List.cons.inj (htext.symm.trans sign)).2
          exact WrittenInteger.form_eq isNumber

theorem Value.exists_cut (h : form.Writes text) :
  ∃ front mark, text.toList = front ++ mark ∧ dropBytes text form.markLength = front ∧
    mark.length = form.markLength ∧ (∀ l ∈ mark, l.isAlpha) ∧ ∃ d ∈ front, d.isDigit
  := by
  obtain ⟨front, mark, htext, hlength, hmark, d, hd, hdigit⟩ : ∃ front mark,
      text.toList = front ++ mark ∧ mark.length = form.markLength ∧ (∀ l ∈ mark, l.isAlpha) ∧
        ∃ d ∈ front, d.isDigit := by
    cases h with
    | plain isNumber => exact isNumber.exists_mark
    | negative sign isNumber =>
        obtain ⟨front, mark, hw, hlength, hmark, d, hd, hdigit⟩ := isNumber.exists_mark
        refine ⟨'-' :: front, mark, ?_, hlength, hmark, d, List.mem_cons_of_mem _ hd, hdigit⟩
        rw [sign, hw, List.cons_append]
  refine ⟨front, mark, htext, ?_, hlength, hmark, d, hd, hdigit⟩
  rw [← hlength, dropBytes_append htext hmark]

end

/-- The numbers of statements are read as they are written. -/
theorem Constant.agrees {c : Constant} (h : c.value.IsWritten) :
  c.Agrees
  := by
  constructor
  case meaning =>
    intro w form hvalue
    rw [hvalue] at h
    obtain rfl := h.form_eq
    refine ⟨rfl, ?_⟩
    rw [Value.ofConstant, hvalue, Value.ofLiteral, w.ofNumber_text]
  case isInteger =>
    intro form text hvalue hform
    rw [hvalue] at h
    exact h.exists_text hform
  case cut =>
    intro form text hvalue
    rw [hvalue] at h
    exact Value.exists_cut h
  case hasUnit =>
    intro text span hc
    obtain ⟨cause, hrefused, hfault⟩ := (Value.ofConstant_eq_error h).mp hc
    obtain rfl : Cause.badByteLength text = cause := congrArg Fault.cause hfault
    generalize c.value = value at hrefused
    obtain ⟨hrefuses⟩ := hrefused
    cases hrefuses

end SqlFront
