import SqlFront.Proofs.Reading.Lookahead
import SqlFront.Proofs.Text.Case
import SqlFront.Proofs.Tokens.Cut

/-!
# Tokens in either case

No rule for tokens tells small letters from capitals.  So texts that are the same up to case have
tokens of the same kinds in the same regions, and the tokens that correspond to each other are the
same up to case.
-/

namespace SqlFront

/-! ### Words and numbers -/

namespace Match

variable (cs : List Char)

@[simp]
theorem isWordChar_toUpper (c : Char) :
  isWordChar c.toUpper = isWordChar c
  := by
  apply congr_toUpper
  intro c d hc hd
  simp [isWordChar, Char.isAlphanum, hc, hd]

@[simp]
theorem isJobChar_toUpper (c : Char) :
  isJobChar c.toUpper = isJobChar c
  := by
  apply congr_toUpper
  intro c d hc hd
  simp [isJobChar, isWordChar, Char.isAlphanum, hc, hd]

/-- No letter is a digit. -/
theorem isDigit_of_isAlpha {c : Char} (hc : c.isAlpha = true) :
  c.isDigit = false
  := by
  rw [isAlpha_iff] at hc
  rw [Bool.eq_false_iff]
  intro h
  have hnat : 48 ≤ c.toNat ∧ c.toNat ≤ 57 := by
    apply (Bool.and_eq_true_iff.mp h).imp of_decide_eq_true of_decide_eq_true
  omega

@[simp]
theorem isDigit_toUpper (c : Char) :
  c.toUpper.isDigit = c.isDigit
  := by
  apply congr_toUpper (f := Char.isDigit)
  intro c d hc hd
  rw [isDigit_of_isAlpha hc, isDigit_of_isAlpha hd]

theorem takeWhile_toUpper {p : Char → Bool} (hp : ∀ c, p c.toUpper = p c) :
  (cs.map Char.toUpper).takeWhile p = (cs.takeWhile p).map Char.toUpper
  := by
  rw [List.takeWhile_map, show p ∘ Char.toUpper = p from funext hp]

theorem runLength_toUpper {p : Char → Bool} (hp : ∀ c, p c.toUpper = p c) :
  runLength p (cs.map Char.toUpper) = runLength p cs
  := by
  rw [runLength, takeWhile_toUpper cs hp, List.length_map, runLength]

theorem signLength_toUpper :
  signLength (cs.map Char.toUpper) = signLength cs
  := by
  cases cs with
  | nil => rfl
  | cons c cs =>
      simp only [List.map_cons, signLength_cons, toUpper_eq_iff (x := '+') rfl,
        toUpper_eq_iff (x := '-') rfl]

theorem exponentLength?_toUpper :
  exponentLength? (cs.map Char.toUpper) = exponentLength? cs
  := by
  cases cs with
  | nil => rfl
  | cons c cs =>
      simp only [List.map_cons, exponentLength?, signLength_toUpper, ← List.map_drop,
        runLength_toUpper _ isDigit_toUpper, toUpper_toUpper]

theorem withExponent_toUpper (base : Nat) :
  withExponent (cs.map Char.toUpper) base = withExponent cs base
  := by
  rw [withExponent, ← List.map_drop, exponentLength?_toUpper, withExponent]

theorem digitEnds_toUpper :
  digitEnds (cs.map Char.toUpper) = digitEnds cs
  := by
  rw [digitEnds, runLength_toUpper _ isDigit_toUpper, digitEnds]

theorem pointEnds_toUpper :
  pointEnds (cs.map Char.toUpper) = pointEnds cs
  := by
  simp only [pointEnds, runLength_toUpper _ isDigit_toUpper, ← List.map_drop]
  cases cs.drop (runLength Char.isDigit cs) with
  | nil => rfl
  | cons c fraction =>
      by_cases hc : c = '.'
      · subst hc
        simp only [List.map_cons, toUpper_of_not_isAlpha (c := '.') rfl,
          runLength_toUpper _ isDigit_toUpper]
      · have hupper : c.toUpper ≠ '.' := toUpper_ne rfl hc
        simp [hc, hupper]

theorem startsWithSuffix_toUpper (suffix : List Char) :
  startsWithSuffix suffix (cs.map Char.toUpper) = startsWithSuffix suffix cs
  := by
  rw [startsWithSuffix, ← List.map_take, List.map_map,
    show Char.toUpper ∘ Char.toUpper = Char.toUpper from funext toUpper_toUpper, startsWithSuffix]

theorem suffixed_toUpper (form : NumberForm) (suffix : List Char) (ends : List Nat) :
  suffixed form suffix (cs.map Char.toUpper) ends = suffixed form suffix cs ends
  := by
  simp only [suffixed, ← List.map_drop, startsWithSuffix_toUpper]

theorem endsWord_toUpper :
  endsWord (cs.map Char.toUpper) = endsWord cs
  := by
  cases cs with
  | nil => rfl
  | cons c cs => simp [endsWord]

theorem closed_toUpper (found : List Match) :
  closed (cs.map Char.toUpper) found = closed cs found
  := by
  simp only [closed, ← List.map_drop, endsWord_toUpper]

theorem numberMatches_toUpper :
  numberMatches (cs.map Char.toUpper) = numberMatches cs
  := by
  simp only [numberMatches, digitEnds_toUpper, pointEnds_toUpper, suffixed_toUpper, closed_toUpper,
    show withExponent (cs.map Char.toUpper) = withExponent cs from
      funext (withExponent_toUpper cs)]

/-- Keywords are looked up in capitals. -/
theorem keywordMatches_toUpper :
  keywordMatches (cs.map Char.toUpper) = keywordMatches cs
  := by
  have hupper : ∀ word : List Char,
      (String.ofList (word.map Char.toUpper)).toUpper = (String.ofList word).toUpper := by
    intro word
    have hword : String.ofList (word.map Char.toUpper) = (String.ofList word).toUpper := by
      rw [← String.toList_inj, toList_toUpper, String.toList_ofList, String.toList_ofList]
    rw [hword, toUpper_idem]
  have hlookup : ∀ word : List Char, Keyword.lookup? (String.ofList (word.map Char.toUpper)) =
      Keyword.lookup? (String.ofList word) := by
    intro word
    simp only [Keyword.lookup?, hupper]
  simp only [keywordMatches, takeWhile_toUpper cs isWordChar_toUpper, hlookup, List.length_map]

theorem dotMatches_toUpper :
  dotMatches (cs.map Char.toUpper) = dotMatches cs
  := by
  cases cs with
  | nil => rfl
  | cons c cs =>
      by_cases hc : c = '.'
      · subst hc
        rfl
      · have hupper : c.toUpper ≠ '.' := toUpper_ne rfl hc
        simp [dotMatches, hc, hupper]

theorem wordMatches_toUpper :
  wordMatches (cs.map Char.toUpper) = wordMatches cs
  := by
  simp only [wordMatches, keywordMatches_toUpper, numberMatches_toUpper, nameMatches,
    endsWord_toUpper, runLength_toUpper _ isWordChar_toUpper, runLength_toUpper _ isJobChar_toUpper,
    dotMatches_toUpper]

end Match

/-! ### Texts, names, comments and operators -/

namespace Token

variable (cs : List Char)

@[simp]
theorem isBlank_toUpper (c : Char) :
  isBlank c.toUpper = isBlank c
  := by
  apply congr_toUpper
  have hblank : ∀ {c : Char}, c.isAlpha = true → isBlank c = false := by
    intro c hc
    simp [isBlank, ne_of_isAlpha hc]
  intro c d hc hd
  rw [hblank hc, hblank hd]

theorem stringLength?_toUpper {quote : Char} (hquote : quote.isAlpha = false) :
  stringLength? quote (cs.map Char.toUpper) = stringLength? quote cs
  := by
  fun_induction stringLength? quote cs with
  | case1 => rfl
  | case2 => rfl
  | case3 c cs ih =>
      rw [List.map_cons, List.map_cons, toUpper_of_not_isAlpha (c := '\\') rfl, stringLength?, ih]
  | case4 cs hempty hescape =>
      rw [List.map_cons, toUpper_of_not_isAlpha hquote,
        stringLength?_cons (ne_backslash hempty hescape), if_pos rfl]
  | case5 c cs hempty hescape hc ih =>
      have hslash := toUpper_ne rfl (ne_backslash hempty hescape)
      rw [List.map_cons, stringLength?_cons hslash, if_neg (toUpper_ne hquote hc), ih]

theorem backQuotedLength?_toUpper :
  backQuotedLength? (cs.map Char.toUpper) = backQuotedLength? cs
  := by
  fun_induction backQuotedLength? cs with
  | case1 => rfl
  | case2 cs ih =>
      rw [List.map_cons, List.map_cons, toUpper_of_not_isAlpha (c := '\x60') rfl,
        backQuotedLength?, ih]
  | case3 cs hdouble =>
      rw [List.map_cons, toUpper_of_not_isAlpha (c := '\x60') rfl]
      cases cs with
      | nil => rfl
      | cons d cs =>
          have hd : d.toUpper ≠ '\x60' := by
            intro h
            exact hdouble cs (congrArg (· :: cs) ((toUpper_eq_iff rfl).mp h))
          simp [backQuotedLength?, hd]
  | case4 c cs hdouble hquote ih =>
      have hc : c ≠ '\x60' := by
        rintro rfl
        exact hquote rfl
      rw [List.map_cons, backQuotedLength?_cons (toUpper_ne rfl hc), ih]

theorem lineEndLength_toUpper :
  lineEndLength (cs.map Char.toUpper) = lineEndLength cs
  := by
  cases cs with
  | nil => rfl
  | cons c cs =>
      by_cases hc : c = '\r'
      · subst hc
        rw [List.map_cons, toUpper_of_not_isAlpha (c := '\r') rfl]
        cases cs with
        | nil => rfl
        | cons d cs =>
            by_cases hd : d = '\n'
            · subst hd
              rfl
            · simp [lineEndLength, hd, toUpper_ne rfl hd]
      · by_cases hn : c = '\n'
        · subst hn
          rfl
        · simp [lineEndLength, hc, hn, toUpper_ne rfl hc, toUpper_ne rfl hn]

theorem lineLength_toUpper :
  lineLength (cs.map Char.toUpper) = lineLength cs
  := by
  have hrun := Match.runLength_toUpper (p := fun c => c != '\r' && c != '\n') cs <| by
    intro c
    simp only [bne, beq_eq_decide, toUpper_eq_iff (x := '\r') rfl, toUpper_eq_iff (x := '\n') rfl]
  simp only [lineLength, hrun, ← List.map_drop, lineEndLength_toUpper]

theorem commentLength?_toUpper :
  commentLength? (cs.map Char.toUpper) = commentLength? cs
  := by
  fun_induction commentLength? cs with
  | case1 => rfl
  | case2 c cs hend ih =>
      have hend' : ∀ tail, c.toUpper = '*' → cs.map Char.toUpper = '/' :: tail → False := by
        intro tail hc hcs
        obtain ⟨d, ds, rfl, hd, -⟩ := List.map_eq_cons_iff.mp hcs
        exact hend ds ((toUpper_eq_iff rfl).mp hc) (by rw [(toUpper_eq_iff rfl).mp hd])
      rw [List.map_cons, commentLength?, ih]
      exact hend'
  | case3 => rfl

theorem measureSlash_toUpper :
  measureSlash (cs.map Char.toUpper) = measureSlash cs
  := by
  rcases cs with _ | ⟨c, cs⟩
  · rfl
  by_cases hc : c = '*'
  · subst hc
    rw [List.map_cons, toUpper_of_not_isAlpha (c := '*') rfl]
    rcases cs with _ | ⟨d, cs⟩
    · rfl
    by_cases hhint : d = '+'
    · subst hhint
      rfl
    by_cases hempty : d = '*' ∧ cs.head? = some '/'
    · obtain ⟨rfl, hhead⟩ := hempty
      obtain ⟨cs, rfl⟩ := List.head?_eq_some_iff.mp hhead
      rfl
    · have hempty' : ¬ (d.toUpper = '*' ∧ (cs.map Char.toUpper).head? = some '/') := by
        rintro ⟨hd, hhead⟩
        rw [List.head?_map, Option.map_eq_some_iff] at hhead
        obtain ⟨e, he, hslash⟩ := hhead
        rw [(toUpper_eq_iff rfl).mp hslash] at he
        exact hempty ⟨(toUpper_eq_iff rfl).mp hd, he⟩
      rw [List.map_cons, measureSlash_comment hempty' (toUpper_ne rfl hhint),
        measureSlash_comment hempty hhint, commentLength?_toUpper]
  · rw [List.map_cons, measureSlash_of_ne (toUpper_ne rfl hc), measureSlash_of_ne hc]

/-- No letter belongs to an operator. -/
theorem measureOperator_letter {x : Char} (hx : x.isAlpha = true) (c : Char) :
  measureOperator c (x :: cs) = measureOperator c []
  := by
  have heq := ne_of_isAlpha hx (x := '=') rfl
  have hgt := ne_of_isAlpha hx (x := '>') rfl
  have hlt := ne_of_isAlpha hx (x := '<') rfl
  unfold measureOperator
  split <;> simp_all

theorem measureOperator_toUpper (c : Char) :
  measureOperator c (cs.map Char.toUpper) = measureOperator c cs
  := by
  cases cs with
  | nil => rfl
  | cons x cs =>
      cases hx : x.isAlpha with
      | true =>
          rw [List.map_cons, measureOperator_letter _ (by rw [isAlpha_toUpper, hx]),
            measureOperator_letter _ hx]
      | false =>
          rw [List.map_cons, toUpper_of_not_isAlpha hx]
          by_cases h : c = '<' ∧ x = '='
          · obtain ⟨rfl, rfl⟩ := h
            cases cs with
            | nil => rfl
            | cons y cs =>
                by_cases hy : y = '>'
                · subst hy
                  rfl
                · simp [measureOperator, hy, toUpper_ne rfl hy]
          · rw [measureOperator_cons h, measureOperator_cons h cs]

/-- What begins with a letter is measured by the rules for words. -/
theorem measure_letter {c d : Char} {cs ds : List Char} (hc : c.isAlpha = true)
    (hd : d.isAlpha = true) (h : Match.wordMatches (c :: cs) = Match.wordMatches (d :: ds)) :
  measure c cs = measure d ds
  := by
  have hword : ∀ {c : Char}, c.isAlpha = true → Match.isWordChar c = true := by
    intro c hc
    simp [Match.isWordChar, Char.isAlphanum, hc]
  rw [measure_of_word (.inl (hword hc)), measure_of_word (.inl (hword hd)), h]

/-- What a text begins with does not depend on the case of its letters. -/
theorem measure_toUpper (c : Char) :
  measure c.toUpper (cs.map Char.toUpper) = measure c cs
  := by
  have hwords : Match.wordMatches (c.toUpper :: cs.map Char.toUpper) =
      Match.wordMatches (c :: cs) := Match.wordMatches_toUpper (c :: cs)
  cases hc : c.isAlpha with
  | true => exact measure_letter (by rw [isAlpha_toUpper, hc]) hc hwords
  | false =>
      have hhead : (cs.map Char.toUpper).head? = some '-' ↔ cs.head? = some '-' := by
        cases cs with
        | nil => rfl
        | cons d cs => simp [toUpper_eq_iff]
      rw [toUpper_of_not_isAlpha hc] at hwords ⊢
      simp only [measure, hwords, Match.runLength_toUpper cs isBlank_toUpper,
        stringLength?_toUpper cs hc, backQuotedLength?_toUpper, hhead, ← List.map_drop,
        lineLength_toUpper, measureSlash_toUpper, measureOperator_toUpper]

theorem collapseBackQuotes_toUpper :
  Text.collapseBackQuotes (cs.map Char.toUpper) = (Text.collapseBackQuotes cs).map Char.toUpper
  := by
  fun_induction Text.collapseBackQuotes cs with
  | case1 cs ih =>
      rw [List.map_cons, List.map_cons, toUpper_of_not_isAlpha (c := '\x60') rfl,
        Text.collapseBackQuotes, ih, List.map_cons, toUpper_of_not_isAlpha (c := '\x60') rfl]
  | case2 c cs hdouble ih =>
      have hdouble' : ∀ tail, c.toUpper = '\x60' → cs.map Char.toUpper = '\x60' :: tail →
          False := by
        intro tail hc hcs
        obtain ⟨d, ds, rfl, hd, -⟩ := List.map_eq_cons_iff.mp hcs
        exact hdouble ds ((toUpper_eq_iff rfl).mp hc) (by rw [(toUpper_eq_iff rfl).mp hd])
      rw [List.map_cons, Text.collapseBackQuotes, ih, List.map_cons]
      exact hdouble'
  | case3 => rfl

/-- The text of a token is the same up to case if its characters are. -/
theorem textOf_toUpper (kind : Kind) {written written' : List Char}
    (h : written'.map Char.toUpper = written.map Char.toUpper) :
  (textOf kind written').toUpper = (textOf kind written).toUpper
  := by
  have hname : (Text.unBackQuote written').map Char.toUpper =
      (Text.unBackQuote written).map Char.toUpper := by
    rw [Text.unBackQuote, Text.unBackQuote, ← collapseBackQuotes_toUpper,
      ← collapseBackQuotes_toUpper, List.map_dropLast, List.map_dropLast, List.map_drop,
      List.map_drop, h]
  rw [← String.toList_inj, toList_toUpper, toList_toUpper, textOf, textOf, String.toList_ofList,
    String.toList_ofList]
  split
  · exact hname
  · exact h

/-- Two tokens of one kind stand in the same region, and their texts are the same up to case. -/
structure SameLetters (t u : Token) : Prop where
  kind : u.kind = t.kind
  span : u.span = t.span
  letters : u.text.toUpper = t.text.toUpper

end Token

/-! ### Places -/

theorem Position.after_toUpper (p : Position) (c : Char) :
  p.after c.toUpper = p.after c
  := by
  have hsize : c.toUpper.utf8Size = c.utf8Size := utf8Size_of_toUpper_eq (toUpper_toUpper c)
  simp only [after, hsize, toUpper_eq_iff (x := '\n') rfl]

/-- Characters lead to the same place in either case. -/
theorem Position.afterAll_toUpper (p : Position) (cs : List Char) :
  p.afterAll (cs.map Char.toUpper) = p.afterAll cs
  := by
  induction cs generalizing p with
  | nil => rfl
  | cons c cs ih => rw [List.map_cons, afterAll_cons, after_toUpper, ih, afterAll_cons]

/-! ### Texts -/

namespace Cursor

open Token

/-- Two cursors stand at the same place, and what lies ahead is the same up to case. -/
structure SameLetters (c d : Cursor) : Prop where
  position : d.position = c.position
  letters : d.rest.map Char.toUpper = c.rest.map Char.toUpper

namespace SameLetters

variable {c d : Cursor}

theorem skip (h : c.SameLetters d) (n : Nat) :
  (c.skip n).SameLetters (d.skip n)
  := by
  constructor
  · change d.position.afterAll (d.rest.take n) = c.position.afterAll (c.rest.take n)
    rw [h.position, ← Position.afterAll_toUpper, ← Position.afterAll_toUpper _ (c.rest.take n),
      List.map_take, List.map_take, h.letters]
  · change (d.rest.drop n).map Char.toUpper = (c.rest.drop n).map Char.toUpper
    rw [List.map_drop, List.map_drop, h.letters]

/-- What comes next in texts that are the same up to case is the same up to case. -/
theorem next (h : c.SameLetters d) (hc : c.rest ≠ []) :
  d.rest ≠ [] ∧ ((∃ e, c.next = .error e ∧ d.next = .error e) ∨
    ∃ t u c' d', c.next = .ok (t, c') ∧ d.next = .ok (u, d') ∧ t.SameLetters u ∧ c'.SameLetters d')
  := by
  obtain ⟨cs, p⟩ := c
  obtain ⟨ds, q⟩ := d
  obtain rfl : q = p := h.position
  cases cs with
  | nil => contradiction
  | cons x cs =>
      obtain ⟨y, ds, rfl, hy, hds⟩ := List.map_eq_cons_iff.mp h.letters
      refine ⟨List.cons_ne_nil y ds, ?_⟩
      have hmeasure : measure y ds = measure x cs := by
        rw [← measure_toUpper, hy, hds, measure_toUpper]
      cases hx : measure x cs with
      | error cause =>
          left
          exact ⟨_, next_cons_eq_error_iff.mpr ⟨cause, hx, rfl⟩,
            next_cons_eq_error_iff.mpr ⟨cause, hmeasure.trans hx, rfl⟩⟩
      | ok found =>
          obtain ⟨kind, n⟩ := found
          right
          have hskip := h.skip (n + 1)
          have hnext := next_of_measure q (hmeasure.trans hx)
          refine ⟨_, _, _, _, next_of_measure q hx, hnext, ?_, hskip⟩
          constructor
          · rfl
          · rw [hskip.position]
          · apply textOf_toUpper
            rw [List.map_take, List.map_take, h.letters]

/-- The tokens of texts that are the same up to case are the same up to case, and so is what stands
behind them. -/
theorem transcript (h : c.SameLetters d) :
  List.Forall₂ Token.SameLetters c.transcript.tokens d.transcript.tokens ∧
    d.transcript.stop = c.transcript.stop
  := by
  induction c using Cursor.transcript.induct generalizing d with
  | case1 c hc =>
      have hd : d.rest = [] := by
        have hletters := h.letters
        rw [hc] at hletters
        exact List.map_eq_nil_iff.mp hletters
      rw [transcript_of_rest_eq_nil hc, transcript_of_rest_eq_nil hd, h.position]
      exact ⟨.nil, rfl⟩
  | case2 c hc e he =>
      obtain ⟨hd, ⟨e', he', hfault⟩ | ⟨t, u, c', d', hnext, -⟩⟩ := h.next hc
      · rw [he] at he'
        obtain rfl := Except.error.inj he'
        rw [transcript_of_fault hc he, transcript_of_fault hd hfault]
        exact ⟨.nil, rfl⟩
      · rw [he] at hnext
        contradiction
  | case3 c hc t c' hnext ih =>
      obtain ⟨hd, ⟨e, he, -⟩ | ⟨v, u, c'', d', hnext', hnextd, hletters, hrest⟩⟩ := h.next hc
      · rw [hnext] at he
        contradiction
      · rw [hnext] at hnext'
        obtain ⟨rfl, rfl⟩ := Prod.mk.inj (Except.ok.inj hnext')
        rw [transcript_of_next hc hnext, transcript_of_next hd hnextd]
        exact ⟨.cons hletters (ih hrest).1, (ih hrest).2⟩

end SameLetters

end Cursor

variable {text other : String}

theorem Cursor.sameLetters_ofString (h : text.toUpper = other.toUpper) :
  (ofString text).SameLetters (ofString other)
  := by
  constructor
  · rfl
  · change other.toList.map Char.toUpper = text.toList.map Char.toUpper
    rw [← toList_toUpper, ← toList_toUpper, h]

/-- Texts that are the same up to case have tokens of the same kinds in the same regions, or the
same fault. -/
theorem Token.list_sameLetters (h : text.toUpper = other.toUpper) :
  (Token.list text).map (·.map fun t => (t.kind, t.span)) =
    (Token.list other).map (·.map fun t => (t.kind, t.span))
  := by
  obtain ⟨htokens, hstop⟩ := (Cursor.sameLetters_ofString h).transcript
  have hmap : (Cursor.ofString text).transcript.tokens.map (fun t => (t.kind, t.span)) =
      (Cursor.ofString other).transcript.tokens.map fun t => (t.kind, t.span) := by
    rw [← List.forall₂_eq_eq_eq, List.forall₂_map_left_iff, List.forall₂_map_right_iff]
    exact htokens.imp fun t u h => by rw [h.kind, h.span]
  rw [Token.list, Token.list, Cursor.tokens_eq, Cursor.tokens_eq, hstop]
  cases (Cursor.ofString text).transcript.stop with
  | error e => rfl
  | ok p => simp only [Except.map, List.map_append, hmap]

/-- The visible tokens of texts that are the same up to case are the same up to case, and so is what
stands behind them. -/
theorem Tape.sameLetters_ofString (h : text.toUpper = other.toUpper) :
  List.Forall₂ Token.SameLetters (ofString text).tokens (ofString other).tokens ∧
    (ofString other).stop = (ofString text).stop
  := by
  obtain ⟨htokens, hstop⟩ := (Cursor.sameLetters_ofString h).transcript
  change List.Forall₂ _ (Cursor.ofString text).visible.1 (Cursor.ofString other).visible.1 ∧
    (Cursor.ofString other).visible.2 = (Cursor.ofString text).visible.2
  rw [Cursor.visible_eq, Cursor.visible_eq]
  refine ⟨List.rel_filter ?_ htokens, hstop⟩
  intro t u h
  simp only [h.kind]

end SqlFront
