import SqlFront.Proofs.Printing.Pieces
import SqlFront.Proofs.Text.Case
import SqlFront.Proofs.Tokens.Points

/-!
# Integers as they are written

`WrittenInteger` is an integer as it stands in a text: a minus sign or none, digits, and a letter or
none, which marks the form.  The digits and the letter are one number, of the form that the letter
marks and of no other (`WrittenInteger.form_eq`), wherever no number or name goes on behind them
(`WrittenInteger.measure_numeral`), and the sign is a token of its own.
-/

namespace SqlFront

open Cursor Match

/-- The number of letters that mark a form. -/
def NumberForm.markLength : NumberForm → Nat
  | integer | decimal => 0
  | bigInt | smallInt | tinyInt | byteLength | double => 1
  | bigDecimal => 2

namespace Match

variable {form : NumberForm} {kind : Kind} {u cs after more : List Char} {c : Char}

/-! ### Numbers -/

/-- No number begins with a sign. -/
theorem NumberRule.head?_ne (h : NumberRule form u after) :
  u.head? ≠ some '-'
  := by
  have hdigits : ∀ {ds v : List Char}, Digits ds → (ds ++ v).head? ≠ some '-' := by
    intro ds v hds hhead
    obtain ⟨d, ds, rfl⟩ := List.exists_cons_of_ne_nil hds.1
    obtain rfl : d = '-' := Option.some.inj hhead
    simpa using hds.2 '-' List.mem_cons_self
  have hpoint : ∀ {p v : List Char}, Pointed p → (p ++ v).head? ≠ some '-' := by
    rintro _ v (⟨isWhole, -⟩ | -)
    · rw [List.append_assoc]
      exact hdigits isWhole
    · rintro ⟨⟩
  cases h with
  | bigInt digits | smallInt digits | tinyInt digits | byteLength digits | decimal digits =>
      exact hdigits digits
  | integer digits =>
      rw [← List.append_nil u]
      exact hdigits digits
  | double digits | bigDecimal digits =>
      rw [List.append_assoc]
      exact hdigits digits
  | pointDecimal point => exact hpoint point
  | pointDouble point | pointBigDecimal point =>
      rw [List.append_assoc]
      exact hpoint point

/-- A number ends with its mark. -/
theorem NumberRule.exists_mark (h : NumberRule form u after) :
  ∃ front mark, u = front ++ mark ∧ mark.length = form.markLength ∧ (∀ l ∈ mark, l.isAlpha) ∧
    ∃ d ∈ front, d.isDigit
  := by
  have hdigit : ∀ {ds : List Char} (e : List Char), Digits ds → ∃ d ∈ ds ++ e, d.isDigit := by
    intro ds e hds
    obtain ⟨d, ds, rfl⟩ := List.exists_cons_of_ne_nil hds.1
    exact ⟨d, by simp, hds.2 d (by simp)⟩
  have hplaces : ∀ {p : List Char} (e : List Char), Pointed p → ∃ d ∈ p ++ e, d.isDigit := by
    rintro _ e (⟨isWhole, -⟩ | arePlaces)
    · rw [List.append_assoc]
      exact hdigit _ isWhole
    · obtain ⟨d, hd, hdigit⟩ := hdigit e arePlaces
      exact ⟨d, List.mem_cons_of_mem _ hd, hdigit⟩
  have hmark : ∀ {l a : Char}, l.toUpper = a → a.isAlpha → l.isAlpha := by
    rintro l _ rfl ha
    rwa [isAlpha_toUpper] at ha
  have hunit : ∀ a ∈ ['B', 'K', 'M', 'G'], a.isAlpha := by simp [isAlpha_iff]
  cases h with
  | bigInt digits mark | smallInt digits mark | tinyInt digits mark =>
      refine ⟨_, _, rfl, rfl, by simpa using hmark mark rfl, ?_⟩
      simpa using hdigit [] digits
  | byteLength digits mark =>
      refine ⟨_, _, rfl, rfl, by simpa using hmark rfl (hunit _ mark), ?_⟩
      simpa using hdigit [] digits
  | integer digits =>
      refine ⟨_, [], (List.append_nil _).symm, rfl, by simp, ?_⟩
      simpa using hdigit [] digits
  | decimal digits => exact ⟨_, [], (List.append_nil _).symm, rfl, by simp, hdigit _ digits⟩
  | pointDecimal point => exact ⟨_, [], (List.append_nil _).symm, rfl, by simp, hplaces _ point⟩
  | double digits _ mark => exact ⟨_, _, rfl, rfl, by simpa using hmark mark rfl, hdigit _ digits⟩
  | pointDouble point _ mark =>
      exact ⟨_, _, rfl, rfl, by simpa using hmark mark rfl, hplaces _ point⟩
  | bigDecimal digits _ mark mark' =>
      exact ⟨_, _, rfl, rfl, by simpa using ⟨hmark mark rfl, hmark mark' rfl⟩, hdigit _ digits⟩
  | pointBigDecimal point _ mark mark' =>
      exact ⟨_, _, rfl, rfl, by simpa using ⟨hmark mark rfl, hmark mark' rfl⟩, hplaces _ point⟩

/-! ### What goes on -/

/-- Whether a character may stand in a name or a number. -/
def isTokenChar (c : Char) : Bool := isJobChar c || c = '.' || c = '+'

theorem isTokenChar_of_isDigit (hc : c.isDigit) :
  isTokenChar c
  := by
  simp [isTokenChar, isJobChar, isWordChar, Char.isAlphanum, hc]

theorem isTokenChar_of_toUpper {a : Char} (hc : c.toUpper = a) (ha : a.isAlpha) :
  isTokenChar c
  := by
  rw [← hc, isAlpha_toUpper] at ha
  simp [isTokenChar, isJobChar, isWordChar, Char.isAlphanum, ha]

theorem NumberRule.forall_isTokenChar (h : NumberRule form u after) :
  ∀ c ∈ u, isTokenChar c
  := by
  have hdigits : ∀ {ds : List Char}, (∀ c ∈ ds, c.isDigit) → ∀ c ∈ ds, isTokenChar c :=
    fun h c hc => isTokenChar_of_isDigit (h c hc)
  have hmark : ∀ {l a : Char}, l.toUpper = a → a.isAlpha → ∀ c ∈ [l], isTokenChar c := by
    intro l a hl ha
    simpa using isTokenChar_of_toUpper hl ha
  have hscale : ∀ {e : List Char}, Scale e → ∀ c ∈ e, isTokenChar c := by
    rintro _ (_ | ⟨isLetter, isSign, areDigits⟩)
    · simp
    · have hplus : isTokenChar '+' := rfl
      have hminus : isTokenChar '-' := rfl
      have hletter := isTokenChar_of_toUpper isLetter rfl
      have hplaces := hdigits areDigits.2
      rcases isSign with rfl | rfl | rfl <;>
        simpa [hplus, hminus, hletter] using hplaces
  have hpoint : ∀ {p : List Char}, Pointed p → ∀ c ∈ p, isTokenChar c := by
    have hdot : isTokenChar '.' := rfl
    rintro _ (⟨isWhole, arePlaces⟩ | arePlaces)
    · exact List.forall_mem_append.mpr
        ⟨hdigits isWhole.2, List.forall_mem_cons.mpr ⟨hdot, hdigits arePlaces⟩⟩
    · exact List.forall_mem_cons.mpr ⟨hdot, hdigits arePlaces.2⟩
  have hunit : ∀ a ∈ ['B', 'K', 'M', 'G'], a.isAlpha := by simp [isAlpha_iff]
  cases h with
  | bigInt digits mark | smallInt digits mark | tinyInt digits mark =>
      exact List.forall_mem_append.mpr ⟨hdigits digits.2, hmark mark rfl⟩
  | byteLength digits mark =>
      exact List.forall_mem_append.mpr ⟨hdigits digits.2, hmark rfl (hunit _ mark)⟩
  | integer digits => exact hdigits digits.2
  | decimal digits exponent =>
      exact List.forall_mem_append.mpr ⟨hdigits digits.2, hscale (.some exponent)⟩
  | pointDecimal point scale => exact List.forall_mem_append.mpr ⟨hpoint point, hscale scale⟩
  | double digits scale mark =>
      simp only [List.forall_mem_append]
      exact ⟨⟨hdigits digits.2, hscale scale⟩, hmark mark rfl⟩
  | pointDouble point scale mark =>
      simp only [List.forall_mem_append]
      exact ⟨⟨hpoint point, hscale scale⟩, hmark mark rfl⟩
  | bigDecimal digits scale mark mark' =>
      rw [List.append_cons]
      simp only [List.forall_mem_append]
      exact ⟨⟨⟨hdigits digits.2, hscale scale⟩, hmark mark rfl⟩, hmark mark' rfl⟩
  | pointBigDecimal point scale mark mark' =>
      rw [List.append_cons]
      simp only [List.forall_mem_append]
      exact ⟨⟨⟨hpoint point, hscale scale⟩, hmark mark rfl⟩, hmark mark' rfl⟩

theorem WordRule.forall_isTokenChar (h : WordRule kind u after) :
  ∀ c ∈ u, isTokenChar c
  := by
  have hjob : ∀ {v : List Char}, (∀ c ∈ v, isJobChar c) → ∀ c ∈ v, isTokenChar c := by
    intro v hv c hc
    simp [isTokenChar, hv c hc]
  rcases h.number_or with ⟨form, -, hrule⟩ | rfl | hu
  · exact hrule.forall_isTokenChar
  · simp [isTokenChar]
  · exact hjob hu

/-- Whether neither a name nor a number goes on with `more`. -/
def Ends (more : List Char) : Prop := ∀ c ∈ more.head?, isTokenChar c = false

/-- Names and numbers do not go on where they end. -/
theorem WordRule.length_le (h : WordRule kind u after)
    (hmore : Ends more) (hu : cs ++ more = u ++ after) :
  u.length ≤ cs.length
  := by
  rcases List.append_eq_append_iff.mp hu with ⟨mid, rfl, rfl⟩ | ⟨mid, rfl, -⟩
  · cases mid with
    | nil => simp
    | cons c mid =>
        have htoken := h.forall_isTokenChar c (by simp)
        rw [hmore c rfl] at htoken
        contradiction
  · simp

end Match

/-! ### Integers -/

/-- An integer as it is written: a minus sign or none, digits, and a letter or none. -/
structure WrittenInteger where
  minus : Bool
  digits : List Char
  mark : Option Char
  areDigits : Digits digits
  isMark : ∀ l ∈ mark, l.toUpper ∈ ['L', 'S', 'Y', 'B', 'K', 'M', 'G']

namespace WrittenInteger

/-- The digits with the letter behind them. -/
def numeral (w : WrittenInteger) : List Char := w.digits ++ w.mark.toList

/-- The sign. -/
def sign (w : WrittenInteger) : List Char := if w.minus then ['-'] else []

/-- The characters that an integer is written with. -/
def text (w : WrittenInteger) : String := String.ofList (w.sign ++ w.numeral)

/-- The form that the letter marks. -/
def form (w : WrittenInteger) : NumberForm :=
  match w.mark.map Char.toUpper with
  | none => .integer
  | some 'L' => .bigInt
  | some 'S' => .smallInt
  | some 'Y' => .tinyInt
  | some _ => .byteLength

variable {w : WrittenInteger} {form : NumberForm} {after more : List Char} {c : Char}
  {cs : List Char}

/-! ### The form -/

/-- The digits and the letter are a number of the form that the letter marks. -/
theorem numberRule (w : WrittenInteger) (after : List Char) :
  NumberRule w.form w.numeral after
  := by
  obtain ⟨minus, digits, mark, areDigits, isMark⟩ := w
  cases mark with
  | none =>
      simp only [form, numeral, Option.map_none, Option.toList_none, List.append_nil]
      exact .integer areDigits
  | some l =>
      have hmark := isMark l rfl
      simp only [form, numeral, Option.map_some, Option.toList_some]
      split
      · contradiction
      · next h => exact .bigInt areDigits (Option.some.inj h)
      · next h => exact .smallInt areDigits (Option.some.inj h)
      · next h => exact .tinyInt areDigits (Option.some.inj h)
      · next hL hS hY h =>
          apply NumberRule.byteLength areDigits
          simp_all

theorem numeral_ne_nil (w : WrittenInteger) :
  w.numeral ≠ []
  := (w.numberRule []).ne_nil

/-- The first character is a digit. -/
theorem isDigit_of_numeral (w : WrittenInteger) (hw : w.numeral = c :: cs) :
  c.isDigit
  := by
  obtain ⟨d, ds, hds⟩ := List.exists_cons_of_ne_nil w.areDigits.1
  rw [numeral, hds, List.cons_append] at hw
  obtain ⟨rfl, -⟩ := List.cons.inj hw
  exact w.areDigits.2 d (by simp [hds])

/-- What is not a digit is the letter. -/
theorem isDigit_or_mark (hc : c ∈ w.numeral) :
  c.isDigit ∨ w.mark = some c
  := by
  rcases List.mem_append.mp hc with hc | hc
  · exact .inl (w.areDigits.2 c hc)
  · exact .inr (Option.mem_toList.mp hc)

/-- A character that is no digit, in either case, and no mark does not occur. -/
theorem not_mem_numeral (hc : c.toUpper ∉ ['L', 'S', 'Y', 'B', 'K', 'M', 'G'])
    (hdigit : c.toUpper.isDigit = false) :
  c ∉ w.numeral
  := by
  intro hmem
  rcases isDigit_or_mark hmem with h | h
  · rw [toUpper_of_isDigit h, h] at hdigit
    contradiction
  · exact hc (w.isMark c h)

/-- A letter at the end is the mark. -/
theorem mark_eq {front : List Char} {l : Char} (h : w.numeral = front ++ [l])
    (hl : l.toUpper.isDigit = false) :
  w.mark = some l
  := by
  apply (isDigit_or_mark (w := w) (c := l) (by simp [h])).resolve_left
  intro hdigit
  rw [toUpper_of_isDigit hdigit, hdigit] at hl
  contradiction

/-- A number with a letter that marks no integer is none. -/
theorem numeral_ne {front back : List Char} {l a : Char} (hl : l.toUpper = a)
    (ha : a ∉ ['L', 'S', 'Y', 'B', 'K', 'M', 'G']) (hdigit : a.isDigit = false) :
  w.numeral ≠ front ++ l :: back
  := by
  intro h
  have hmem : l ∈ w.numeral := by simp [h]
  subst hl
  exact not_mem_numeral ha hdigit hmem

/-- Of no other form are the digits and the letter a number. -/
theorem form_eq (h : NumberRule form w.numeral after) :
  form = w.form
  := by
  generalize hw : w.numeral = u at h
  have hpoint : ∀ {p e : List Char}, Pointed p → w.numeral ≠ p ++ e := by
    have hdot : ∀ front back, w.numeral ≠ front ++ '.' :: back :=
      fun _ _ => numeral_ne rfl (by decide) rfl
    rintro p e hp
    cases hp with
    | behind => simpa using hdot _ _
    | bare => exact hdot [] _
  cases h with
  | bigInt _ mark | smallInt _ mark | tinyInt _ mark =>
      rw [WrittenInteger.form, mark_eq hw (by rw [mark]; rfl), Option.map_some, mark]
      rfl
  | byteLength _ mark =>
      have hnone : ∀ a ∈ ['B', 'K', 'M', 'G'], a.isDigit = false := by simp
      rw [WrittenInteger.form, mark_eq hw (hnone _ mark), Option.map_some]
      simp only [List.mem_cons, List.not_mem_nil, or_false] at mark
      rcases mark with mark | mark | mark | mark <;> rw [mark] <;> rfl
  | integer digits =>
      cases hmark : w.mark with
      | none => rw [WrittenInteger.form, hmark, Option.map_none]
      | some l =>
          have hdigit : l.isDigit := digits.2 l (by simp [← hw, numeral, hmark])
          have hl := w.isMark l hmark
          have hnone : ∀ a ∈ ['L', 'S', 'Y', 'B', 'K', 'M', 'G'], a.isDigit = false := by simp
          rw [toUpper_of_isDigit hdigit] at hl
          simp [hnone l hl] at hdigit
  | decimal _ exponent =>
      cases exponent with
      | intro isLetter => exact (numeral_ne isLetter (by decide) rfl hw).elim
  | double _ _ mark => exact (numeral_ne mark (by decide) rfl hw).elim
  | bigDecimal _ _ _ mark' =>
      rw [List.append_cons] at hw
      exact (numeral_ne mark' (by decide) rfl hw).elim
  | pointDecimal point => exact (hpoint point hw).elim
  | pointDouble point | pointBigDecimal point =>
      rw [List.append_assoc] at hw
      exact (hpoint point hw).elim

/-- A number of one of the forms for integers is digits and, if it is marked, a letter. -/
theorem exists_of_numberRule {u : List Char} (h : NumberRule form u after)
    (hform : form ∈ [.integer, .bigInt, .smallInt, .tinyInt, .byteLength]) (minus : Bool) :
  ∃ w : WrittenInteger, w.minus = minus ∧ w.numeral = u
  := by
  cases h with
  | bigInt digits mark | smallInt digits mark | tinyInt digits mark =>
      exact ⟨⟨minus, _, some _, digits, by simp [mark]⟩, rfl, rfl⟩
  | byteLength digits mark =>
      refine ⟨⟨minus, _, some _, digits, ?_⟩, rfl, rfl⟩
      rintro l ⟨⟩
      exact List.mem_cons_of_mem _ (List.mem_cons_of_mem _ (List.mem_cons_of_mem _ mark))
  | integer digits => exact ⟨⟨minus, u, none, digits, by simp⟩, rfl, List.append_nil u⟩
  | _ => simp at hform

/-! ### The token -/

/-- The digits with the letter are measured as one number. -/
theorem measure_numeral (hw : w.numeral = c :: cs) (hmore : Ends more) :
  Token.measure c (cs ++ more) = .ok (.number w.form, cs.length)
  := by
  have hdigit := w.isDigit_of_numeral hw
  have hstart : isWordChar c ∨ c = '.' := by
    simp [isWordChar, Char.isAlphanum, hdigit]
  obtain ⟨⟨kind, n⟩, hbest, -⟩ := exists_longest? hstart (cs ++ more)
  have hmem := longest?_mem hbest
  have hrule := wordRule_of_mem hmem
  have htake := (List.take_append_drop n (c :: (cs ++ more))).symm
  have hlength := List.length_take_of_le (of_mem_wordMatches hmem).2
  generalize List.take n (c :: (cs ++ more)) = u at *
  subst hlength
  have hown : c :: (cs ++ more) = w.numeral ++ more := by
    rw [hw, List.cons_append]
  -- the longest match goes as far as the number, and no rule before that of the number does
  have hle : u.length ≤ w.numeral.length := hrule.length_le hmore (hown ▸ htake)
  rcases lt_or_eq_of_wordRule hbest htake hrule hown (.number (w.numberRule more)) with
    hlt | ⟨heq, hkind⟩
  · omega
  · have hkind : kind = .number w.form := by
      have hrank := w.form.rank_le
      cases hrule with
      | keyword _ spells =>
          rw [Keyword.lookup?_of_isDigit (by rw [String.toList_ofList, ← heq, hw]) hdigit] at spells
          contradiction
      | number isNumber =>
          rw [← heq] at isNumber
          rw [form_eq isNumber]
      | _ =>
          simp only [reduceCtorEq, Kind.rank, false_or] at hkind
          omega
    have hmeasure := Token.measure_of_longest? hstart hbest
    rw [hmeasure, hkind, ← heq, hw]
    rfl

/-! ### The words -/

/-- The digits with the letter, as a word. -/
def word (w : WrittenInteger) : String := String.ofList w.numeral

/-- The words that an integer is written with. -/
def words (w : WrittenInteger) : List String := if w.minus then ["-", w.word] else [w.word]

theorem kindOf?_word (w : WrittenInteger) :
  Token.kindOf? w.word = some (.number w.form)
  := by
  obtain ⟨c, cs, hw⟩ := List.exists_cons_of_ne_nil w.numeral_ne_nil
  have hends : Ends [] := by simp [Ends]
  have hmeasure := measure_numeral hw hends
  rw [List.append_nil] at hmeasure
  simp [Token.kindOf?, word, hw, hmeasure, Kind.isHidden]

theorem kindOf?_minus :
  Token.kindOf? "-" = some .minus
  := by
  decide

/-- An integer is spelled as its words, whatever does not go on with it. -/
theorem spells_text (w : WrittenInteger) (hmore : Ends more) :
  Spells (w.text.toList ++ more) w.words more
  := by
  obtain ⟨c, cs, hw⟩ := List.exists_cons_of_ne_nil w.numeral_ne_nil
  have hlist : w.word.toList = c :: cs := by
    rw [word, String.toList_ofList, hw]
  have hnumeral : Spells (c :: cs ++ more) [w.word] more := by
    rw [← hlist]
    exact spells_of_measure hlist w.kindOf?_word (measure_numeral hw hmore)
  rw [text, String.toList_ofList, sign, words, hw]
  cases w.minus with
  | false => exact hnumeral
  | true =>
      have hminus : Token.measure '-' (c :: cs ++ more) = .ok (.minus, 0) := by
        have hc : c ≠ '-' := by
          rintro rfl
          have hdigit := w.isDigit_of_numeral hw
          contradiction
        simp [Token.measure, Token.isBlank, isWordChar, Char.isAlphanum, hc, Token.measureOperator]
      have hlist : "-".toList = ['-'] := rfl
      have hsign : Spells ("-".toList ++ (c :: cs ++ more)) ["-"] (c :: cs ++ more) :=
        spells_of_measure hlist kindOf?_minus hminus
      exact hsign.cons hnumeral

end WrittenInteger

end SqlFront
