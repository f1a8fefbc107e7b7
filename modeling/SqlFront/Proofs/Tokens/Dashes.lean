import Mathlib.Data.List.Pairwise
import SqlFront.Proofs.Tokens.Alone
import SqlFront.Proofs.Tokens.Append
import SqlFront.Proofs.Tokens.Pieces
import SqlFront.Proofs.Tokens.Longest

/-!
# Two minus signs

Two minus signs side by side begin a line comment where a token begins with them.  Strings, names in
back-quotes and comments hold any characters, two minus signs too.  Of the other tokens, none ends
between two minus signs, and only a long name goes over them (`Token.Undivided`): the sign in an
exponent has a digit behind it, and a long name that ends with a minus sign would have taken another
one along.  So two minus signs are a comment, or stand where anything may stand, except for those in
long names (`Token.dashes_of_list`).
-/

namespace SqlFront

/-- Whether tokens of this kind go on up to a mark, over whatever characters stand before it. -/
def Kind.isEnclosed : Kind → Bool
  | string | quotedIdentifier => true
  | kind => kind.isComment

namespace Match

variable {u w e p ds after : List Char} {form : NumberForm} {kind : Kind} {c : Char}

/-- No two minus signs stand side by side in `w`, nor would one more behind it make two. -/
def Smooth (w : List Char) : Prop := ∀ more, ['-', '-'] <:+: w ++ more ↔ ['-', '-'] <:+: more

theorem smooth_nil :
  Smooth []
  := fun _ => Iff.rfl

theorem Smooth.append (hu : Smooth u) (hw : Smooth w) :
  Smooth (u ++ w)
  := by
  intro more
  rw [List.append_assoc, hu, hw]

theorem smooth_cons (hc : c ≠ '-') (hw : Smooth w) :
  Smooth (c :: w)
  := by
  intro more
  rw [List.cons_append, List.infix_cons_iff, hw, or_iff_right]
  rintro ⟨rest, hrest⟩
  exact hc (List.cons.inj hrest).1.symm

theorem smooth_of_forall (h : ∀ c ∈ w, c ≠ '-') :
  Smooth w
  := by
  induction w with
  | nil => exact smooth_nil
  | cons c w ih =>
      rw [List.forall_mem_cons] at h
      exact smooth_cons h.1 (ih h.2)

/-- A minus sign alone, with another character behind it. -/
theorem smooth_minus (hc : c ≠ '-') (hw : Smooth w) :
  Smooth ('-' :: c :: w)
  := by
  intro more
  have hbehind := smooth_cons hc hw more
  rw [List.cons_append, List.infix_cons_iff, hbehind, or_iff_right]
  rintro ⟨rest, hrest⟩
  exact hc (List.cons.inj (List.cons.inj hrest).2).1.symm

/-- Two minus signs do not stand in such characters, and none ends them. -/
theorem Smooth.noDashes (h : Smooth w) :
  ¬ ['-', '-'] <:+: w ∧ w.getLast? ≠ some '-'
  := by
  constructor
  · intro hinfix
    have hnil := (h []).mp (by rwa [List.append_nil])
    simp at hnil
  · intro hlast
    obtain ⟨u, rfl⟩ := List.getLast?_eq_some_iff.mp hlast
    have hone := (h ['-']).mp ⟨u, [], by simp⟩
    exact absurd hone.length_le (by decide)

/-! ### Words and numbers -/

theorem ne_minus_of_isDigit (hc : c.isDigit) :
  c ≠ '-'
  := by
  rintro rfl
  contradiction

theorem ne_minus_of_isWordChar (hc : isWordChar c) :
  c ≠ '-'
  := by
  rintro rfl
  contradiction

theorem ne_minus_of_toUpper {a : Char} (hc : c.toUpper = a) (ha : a ≠ '-') :
  c ≠ '-'
  := by
  rintro rfl
  exact ha hc.symm

theorem smooth_digits (h : ∀ c ∈ ds, c.isDigit) :
  Smooth ds
  := smooth_of_forall fun c hc => ne_minus_of_isDigit (h c hc)

theorem Pointed.smooth (h : Pointed p) :
  Smooth p
  := by
  cases h with
  | behind isWhole arePlaces =>
      exact (smooth_digits isWhole.2).append (smooth_cons (by decide) (smooth_digits arePlaces))
  | bare arePlaces => exact smooth_cons (by decide) (smooth_digits arePlaces.2)

/-- Behind the sign of an exponent stands a digit. -/
theorem Exponent.smooth (h : Exponent e) :
  Smooth e
  := by
  obtain ⟨isLetter, isSign, areDigits⟩ := h
  have hdigits := smooth_digits areDigits.2
  apply smooth_cons (ne_minus_of_toUpper isLetter (by decide))
  rcases isSign with rfl | rfl | rfl
  · exact hdigits
  · exact smooth_cons (by decide) hdigits
  · obtain ⟨d, ds, rfl⟩ := List.exists_cons_of_ne_nil areDigits.1
    have hd := List.forall_mem_cons.mp areDigits.2
    exact smooth_minus (ne_minus_of_isDigit hd.1) (smooth_digits hd.2)

theorem Scale.smooth (h : Scale e) :
  Smooth e
  := by
  cases h with
  | none => exact smooth_nil
  | some isExponent => exact isExponent.smooth

theorem NumberRule.smooth (h : NumberRule form w after) :
  Smooth w
  := by
  have hmark : ∀ {l a : Char}, l.toUpper = a → a ≠ '-' → Smooth [l] :=
    fun hl ha => smooth_cons (ne_minus_of_toUpper hl ha) smooth_nil
  have hmarks : ∀ {l m : Char}, l.toUpper = 'B' → m.toUpper = 'D' → Smooth [l, m] :=
    fun hl hm => smooth_cons (ne_minus_of_toUpper hl (by decide)) (hmark hm (by decide))
  cases h with
  | bigInt digits mark | smallInt digits mark | tinyInt digits mark =>
      exact (smooth_digits digits.2).append (hmark mark (by decide))
  | byteLength digits mark =>
      refine (smooth_digits digits.2).append (hmark rfl ?_)
      intro heq
      simp [heq] at mark
  | integer digits => exact smooth_digits digits.2
  | decimal digits exponent => exact (smooth_digits digits.2).append exponent.smooth
  | pointDecimal point scale => exact point.smooth.append scale.smooth
  | double digits scale mark =>
      exact ((smooth_digits digits.2).append scale.smooth).append (hmark mark (by decide))
  | pointDouble point scale mark =>
      exact (point.smooth.append scale.smooth).append (hmark mark (by decide))
  | bigDecimal digits scale mark mark' =>
      exact ((smooth_digits digits.2).append scale.smooth).append (hmarks mark mark')
  | pointBigDecimal point scale mark mark' =>
      exact (point.smooth.append scale.smooth).append (hmarks mark mark')

/-- Of words and numbers, only long names have minus signs side by side. -/
theorem WordRule.smooth (h : WordRule kind w after) (hkind : kind ≠ .jobIdentifier) :
  Smooth w
  := by
  cases h with
  | keyword word | identifier word =>
      exact smooth_of_forall fun c hc => ne_minus_of_isWordChar (word.2 c hc)
  | number isNumber => exact isNumber.smooth
  | jobIdentifier => contradiction
  | dot => exact smooth_cons (by decide) smooth_nil

end Match

namespace Token

variable {cs more : List Char} {c : Char} {kind : Kind} {n : Nat}

theorem take_stringLength? {quote : Char} (h : stringLength? quote cs = some n) :
  ∃ body, cs.take n = body ++ [quote]
  := by
  fun_induction stringLength? quote cs generalizing n with
  | case1 | case2 => contradiction
  | case3 c cs ih =>
      obtain ⟨m, hm, rfl⟩ := Option.map_eq_some_iff.mp h
      obtain ⟨body, hbody⟩ := ih hm
      exact ⟨'\\' :: c :: body, by simp [hbody]⟩
  | case4 cs =>
      obtain rfl := Option.some.inj h
      exact ⟨[], rfl⟩
  | case5 c cs _ _ _ ih =>
      obtain ⟨m, hm, rfl⟩ := Option.map_eq_some_iff.mp h
      obtain ⟨body, hbody⟩ := ih hm
      exact ⟨c :: body, by simp [hbody]⟩

theorem take_commentLength? (h : commentLength? cs = some n) :
  ∃ body, cs.take n = body ++ ['/']
  := by
  fun_induction commentLength? cs generalizing n with
  | case1 cs =>
      obtain rfl := Option.some.inj h
      exact ⟨['*'], rfl⟩
  | case2 c cs _ ih =>
      obtain ⟨m, hm, rfl⟩ := Option.map_eq_some_iff.mp h
      obtain ⟨body, hbody⟩ := ih hm
      exact ⟨c :: body, by simp [hbody]⟩
  | case3 => contradiction

/-- A comment between slashes ends with a slash. -/
theorem take_measureSlash (h : measureSlash cs = .ok (kind, n)) (hkind : kind ≠ .slash) :
  ∃ body, cs.take n = body ++ ['/']
  := by
  cases measuredSlash_of_measureSlash h with
  | emptyComment => exact ⟨['*', '*'], rfl⟩
  | @blockComment d _ _ closed =>
      obtain ⟨body, hbody⟩ := take_commentLength? closed
      exact ⟨'*' :: d :: body, by simp [hbody]⟩
  | alone => contradiction

/-- A line that something stands behind ends with its line end. -/
theorem take_lineLength (h : cs.drop (lineLength cs) ≠ []) :
  ∃ body d, cs.take (lineLength cs) = body ++ [d] ∧ d ≠ '-'
  := by
  induction cs with
  | nil => contradiction
  | cons c cs ih =>
      by_cases hreturn : c = '\r'
      · subst hreturn
        by_cases hfeed : cs.head? = some '\n'
        · obtain ⟨cs, rfl⟩ := List.head?_eq_some_iff.mp hfeed
          exact ⟨['\r'], '\n', rfl, by decide⟩
        · have hone : lineLength ('\r' :: cs) = 1 := by
            cases cs with
            | nil => rfl
            | cons d cs =>
                simp only [List.head?_cons, Option.some.injEq] at hfeed
                simp [lineLength, Match.runLength, lineEndLength, hfeed]
          rw [hone]
          exact ⟨[], '\r', rfl, by decide⟩
      by_cases hfeed : c = '\n'
      · subst hfeed
        exact ⟨[], '\n', rfl, by decide⟩
      · rw [Cursor.lineLength_cons ⟨hreturn, hfeed⟩] at h ⊢
        obtain ⟨body, d, hbody, hd⟩ := ih h
        exact ⟨c :: body, d, by simp [hbody], hd⟩

theorem measureOperator_noMinus (h : measureOperator c (cs ++ more) = (kind, cs.length))
    (hc : c ≠ '-') :
  '-' ∉ c :: cs
  := by
  rcases cs with _ | ⟨x, _ | ⟨y, cs⟩⟩
  · simpa using hc.symm
  · have hx : x ≠ '-' := by
      rintro rfl
      unfold measureOperator at h
      split at h <;> simp_all
    simp [hc.symm, hx.symm]
  · unfold measureOperator at h
    split at h <;> simp_all

/-- A token of this kind that is written as `piece`, before `more`, goes over two minus signs only
if the kind allows for them, and it does not end between two of them. -/
structure Undivided (kind : Kind) (piece more : List Char) : Prop where
  kind_of : ['-', '-'] <:+: piece →
    kind.isEnclosed ∨ kind = .jobIdentifier
  whole : piece.getLast? = some '-' → more.head? ≠ some '-'

theorem undivided_of_smooth {piece : List Char} (h : Match.Smooth piece) :
  Undivided kind piece more
  := ⟨fun hdashes => absurd hdashes h.noDashes.1, fun hlast => absurd hlast h.noDashes.2⟩

theorem undivided_of_last (body : List Char) {d : Char} (hpiece : c :: cs = body ++ [d])
    (hd : d ≠ '-')
    (hkind : kind.isEnclosed ∨ kind = .jobIdentifier) :
  Undivided kind (c :: cs) more
  := by
  refine ⟨fun _ => hkind, fun hlast => ?_⟩
  rw [hpiece, List.getLast?_concat] at hlast
  exact absurd (Option.some.inj hlast) hd

theorem undivided_of_measureSlash (h : measureSlash (cs ++ more) = .ok (kind, cs.length)) :
  Undivided kind ('/' :: cs) more
  := by
  by_cases hslash : kind = .slash
  · subst hslash
    rw [List.length_eq_zero_iff.mp (eq_zero_of_measureSlash h)]
    exact undivided_of_smooth (Match.smooth_cons (by decide) Match.smooth_nil)
  · obtain ⟨body, hbody⟩ := take_measureSlash h hslash
    rw [List.take_left] at hbody
    have hkind : kind.isEnclosed := by
      rcases (of_measureSlash h).2 with rfl | rfl | rfl
      · rfl
      · contradiction
      · rfl
    exact undivided_of_last ('/' :: body) (by rw [hbody]; rfl) (by decide) (.inl hkind)

/-- Minus signs in line comments stand before the line end. -/
theorem undivided_of_lineLength (h : lineLength (cs ++ more) = cs.length) :
  Undivided .lineComment ('-' :: '-' :: cs) more
  := by
  refine ⟨fun _ => .inl rfl, fun hlast hmore => ?_⟩
  have hdrop : (cs ++ more).drop (lineLength (cs ++ more)) ≠ [] := by
    rw [h, List.drop_left]
    rintro rfl
    contradiction
  obtain ⟨body, d, hbody, hd⟩ := take_lineLength hdrop
  rw [h, List.take_left] at hbody
  have hpiece : '-' :: '-' :: cs = ('-' :: '-' :: body) ++ [d] := by rw [hbody]; rfl
  rw [hpiece, List.getLast?_concat] at hlast
  exact hd (Option.some.inj hlast)

theorem undivided_of_longest?
    (h : Match.longest? (Match.wordMatches (c :: cs ++ more)) = some (kind, cs.length + 1)) :
  Undivided kind (c :: cs) more
  := by
  have hrule := Match.wordRule_of_mem (Match.longest?_mem h)
  have hlength : cs.length + 1 = (c :: cs).length := rfl
  simp only [hlength, List.take_left, List.drop_left] at hrule
  by_cases hkind : kind = .jobIdentifier
  · subst hkind
    refine ⟨by simp, fun hlast hmore => ?_⟩
    obtain ⟨more, rfl⟩ := List.head?_eq_some_iff.mp hmore
    cases hrule with
    | jobIdentifier first others =>
      have hlonger : Match.WordRule .jobIdentifier (c :: (cs ++ ['-'])) more := by
        refine .jobIdentifier first fun d hd => ?_
        rcases List.mem_append.mp hd with hd | hd
        · exact others d hd
        · obtain rfl := List.mem_singleton.mp hd
          rfl
      have hlength : (c :: cs).length < (c :: (cs ++ ['-'])).length := by simp
      rcases Match.lt_or_eq_of_wordRule h rfl (.jobIdentifier first others) (by simp) hlonger with
        hlt | ⟨heq, -⟩
      · exact Nat.lt_asymm hlength hlt
      · rw [heq] at hlength
        exact Nat.lt_irrefl _ hlength
  · exact undivided_of_smooth (hrule.smooth hkind)

/-- No token ends between two minus signs, and only those of some kinds go over them. -/
theorem undivided_of_measure (h : measure c (cs ++ more) = .ok (kind, cs.length)) :
  Undivided kind (c :: cs) more
  := by
  cases opening c (cs ++ more) with
  | blank isBlank =>
      have hne : ∀ {d}, Token.isBlank d → d ≠ '-' := by
        rintro d hd rfl
        contradiction
      rw [measure_of_isBlank isBlank] at h
      have hblanks := Match.forall_mem_take_runLength Token.isBlank (cs ++ more)
      rw [(Prod.mk.inj (Except.ok.inj h)).2, List.take_left] at hblanks
      exact undivided_of_smooth (Match.smooth_cons (hne isBlank)
        (Match.smooth_of_forall fun d hd => hne (hblanks d hd)))
  | string isQuote closed =>
      rw [measure_string isQuote closed] at h
      obtain ⟨rfl, rfl⟩ := Prod.mk.inj (Except.ok.inj h)
      obtain ⟨body, hbody⟩ := take_stringLength? closed
      rw [List.take_left] at hbody
      have hne : c ≠ '-' := by
        rintro rfl
        simp at isQuote
      exact undivided_of_last (c :: body) (by rw [hbody]; rfl) hne (.inl rfl)
  | openString isQuote endless => simp [measure_openString isQuote endless] at h
  | quoted closed =>
      rw [measure_quoted closed] at h
      obtain ⟨rfl, rfl⟩ := Prod.mk.inj (Except.ok.inj h)
      obtain ⟨name, hpiece⟩ := (take_backQuotedLength? closed).2
      rw [List.take_left] at hpiece
      exact undivided_of_last ('\x60' :: Text.doubleBackQuotes name) (by rw [hpiece]; rfl)
        (by decide) (.inl rfl)
  | openQuoted endless =>
      rw [measure_openQuoted endless] at h
      obtain rfl := List.length_eq_zero_iff.mp (Prod.mk.inj (Except.ok.inj h)).2.symm
      exact undivided_of_smooth (Match.smooth_cons (by decide) Match.smooth_nil)
  | dashes another =>
      cases cs with
      | nil =>
          obtain ⟨more, rfl⟩ := List.head?_eq_some_iff.mp another
          have hlength := (Prod.mk.inj (Except.ok.inj h)).2
          rw [List.length_nil] at hlength
          omega
      | cons d cs =>
          obtain rfl := Option.some.inj another
          rw [List.cons_append, measure_dashes] at h
          obtain ⟨rfl, hlength⟩ := Prod.mk.inj (Except.ok.inj h)
          apply undivided_of_lineLength
          rw [List.length_cons] at hlength
          omega
  | slash => exact undivided_of_measureSlash h
  | word begins =>
      obtain ⟨⟨kind', n⟩, hbest, hpos⟩ := Match.exists_longest? begins (cs ++ more)
      rw [measure_of_longest? begins hbest] at h
      obtain ⟨rfl, hlength⟩ := Prod.mk.inj (Except.ok.inj h)
      apply undivided_of_longest?
      rw [List.cons_append, hbest, Option.some.injEq, Prod.mk.injEq]
      simp only at hlength hpos
      exact ⟨rfl, by omega⟩
  | operator begins =>
      rw [measure_operator begins] at h
      by_cases hc : c = '-'
      · subst hc
        obtain ⟨rfl, hlength⟩ := Prod.mk.inj (Except.ok.inj h)
        obtain rfl := List.length_eq_zero_iff.mp hlength.symm
        refine ⟨fun hdashes => ?_, fun _ hmore => begins.noDashes ⟨rfl, hmore⟩⟩
        exact absurd hdashes.length_le (by decide)
      · have hnone := measureOperator_noMinus (Except.ok.inj h) hc
        refine undivided_of_smooth (Match.smooth_of_forall fun d hd => ?_)
        rintro rfl
        exact hnone hd

/-! ### Two minus signs in a text -/

/-- The characters `w`, which stand behind `before` in the text, are among those that the token is
written as. -/
def Covers (text : String) (before w : List Char) (t : Token) : Prop :=
  ∃ front inside outside, t.IsCut text front (inside ++ w ++ outside) ∧ before = front ++ inside

variable {text : String} {ts : List Token} {t u : Token} {before after w : List Char}

theorem Covers.start_le (h : t.Covers text before w) :
  t.span.start.offset ≤ (Position.following before).offset
  := by
  obtain ⟨front, inside, outside, hcut, rfl⟩ := h
  rw [hcut.start_eq]
  apply Position.offset_following_le

theorem Covers.le_stop (h : t.Covers text before w) :
  (Position.following (before ++ w)).offset ≤ t.span.stop.offset
  := by
  obtain ⟨front, inside, outside, hcut, rfl⟩ := h
  have hpiece : front ++ (inside ++ w ++ outside) = front ++ inside ++ w ++ outside := by simp
  rw [hcut.stop_eq, hpiece]
  apply Position.offset_following_le

/-- Only one token is written with these characters. -/
theorem Covers.unique (hts : Token.list text = .ok ts) (hw : w ≠ []) (ht : t ∈ ts) (hu : u ∈ ts)
    (h : t.Covers text before w) (h' : u.Covers text before w) :
  t = u
  := by
  have hpairwise := (Cursor.tiles_of_tokens rfl rfl hts : Tiles text [] ts).pairwise
  have hover : ∀ {t u : Token}, t.Covers text before w → u.Covers text before w →
      ¬ t.span.stop.offset ≤ u.span.start.offset := by
    intro t u h h' hle
    have hlt := Position.offset_following_lt before hw
    have hstop := h.le_stop
    have hstart := h'.start_le
    omega
  by_contra hne
  let Apart (t u : Token) : Prop :=
    t.span.stop.offset ≤ u.span.start.offset ∨ u.span.stop.offset ≤ t.span.start.offset
  have hapart : ts.Pairwise Apart := hpairwise.imp .inl
  have : Std.Symm Apart := ⟨fun _ _ => Or.symm⟩
  rcases hapart.forall ht hu hne with hle | hle
  · exact hover h h' hle
  · exact hover h' h hle

/-- Two minus signs belong to one token. -/
theorem Row.exists_over_dashes (h : Row text [] ts)
    (htext : text.toList = before ++ '-' :: '-' :: after) :
  ∃ t ∈ ts, ∃ front x cs more inside outside, t.IsMeasured text front x cs more ∧
    before = front ++ inside ∧ x :: cs = inside ++ ['-', '-'] ++ outside
  := by
  obtain ⟨t, ht, front, x, cs, more, inside, outside, hmeasured, hbefore, hpiece, hafter⟩ :=
    h.exists_over (by rw [htext]; rfl)
  have hwhole := (undivided_of_measure hmeasured.measure_eq).whole
  cases outside with
  | nil =>
      rw [hpiece, List.getLast?_concat, ← List.nil_append more, ← hafter] at hwhole
      exact absurd rfl (hwhole rfl)
  | cons d outside =>
      obtain ⟨rfl, -⟩ := List.cons.inj hafter
      exact ⟨t, ht, front, x, cs, more, inside, outside, hmeasured, hbefore, by simp [hpiece]⟩

theorem IsMeasured.covers {front inside outside cs more : List Char} {x : Char}
    (h : t.IsMeasured text front x cs more) (hbefore : before = front ++ inside)
    (hpiece : x :: cs = inside ++ w ++ outside) :
  t.Covers text before w
  := ⟨front, inside, outside, hpiece ▸ h.isCut, hbefore⟩

/-- Where two minus signs begin a token, it is a line comment. -/
theorem IsMeasured.kind_of_dashes {front inside outside cs more : List Char} {x : Char}
    (h : t.IsMeasured text front x cs more)
    (hpiece : x :: cs = inside ++ ['-', '-'] ++ outside)
    (hstart : t.span.start = .following (front ++ inside)) :
  t.kind = .lineComment
  := by
  have hinside : inside = [] := by
    by_contra hne
    have hlt := Position.offset_following_lt front hne
    rw [← hstart, h.isCut.start_eq] at hlt
    exact Nat.lt_irrefl _ hlt
  subst hinside
  obtain ⟨rfl, rfl⟩ := List.cons.inj hpiece
  have hkind := (measure_dashes (outside ++ more)).symm.trans h.measure_eq
  exact (Prod.mk.inj (Except.ok.inj hkind)).1.symm

/-- Only tokens of some kinds have two minus signs in their texts. -/
theorem kind_of_dashes (h : Token.list text = .ok ts) (ht : t ∈ ts)
    (hdashes : ['-', '-'] <:+: t.text.toList) :
  t.kind.isEnclosed ∨ t.kind = .jobIdentifier
  := by
  rcases (row_of_list h).eof_or_isMeasured t ht with rfl | ⟨front, x, cs, more, hmeasured⟩
  · simp [eof] at hdashes
  · by_cases hquoted : t.kind = .quotedIdentifier
    · exact .inl (by rw [hquoted]; rfl)
    · rw [hmeasured.isCut.text_eq hquoted, String.toList_ofList] at hdashes
      exact (undivided_of_measure hmeasured.measure_eq).kind_of hdashes

/-- **Two minus signs.**  Two minus signs side by side belong to one token: a string, a name in
back-quotes, a comment, or a long name.  Where a token begins with them, it is a line comment, and
the texts of tokens of all other kinds hold none.  So two minus signs stand in strings, names in
back-quotes and comments only, exactly if none stand in long names. -/
theorem dashes_of_list (h : Token.list text = .ok ts) :
  (∀ before after, text.toList = before ++ '-' :: '-' :: after →
    ∃ t ∈ ts, t.Covers text before ['-', '-'] ∧ (t.kind.isEnclosed ∨ t.kind = .jobIdentifier) ∧
      (t.span.start = .following before → t.kind = .lineComment)) ∧
  (∀ t ∈ ts, ['-', '-'] <:+: t.text.toList → t.kind.isEnclosed ∨ t.kind = .jobIdentifier) ∧
  ((∀ before after, text.toList = before ++ '-' :: '-' :: after →
      ∃ t ∈ ts, t.Covers text before ['-', '-'] ∧ t.kind.isEnclosed) ↔
    ∀ t ∈ ts, t.kind = .jobIdentifier → ¬ ['-', '-'] <:+: t.text.toList)
  := by
  have hrow := row_of_list h
  refine ⟨?_, fun t => kind_of_dashes h, ?_, ?_⟩
  · intro before after htext
    obtain ⟨t, ht, front, x, cs, more, inside, outside, hmeasured, rfl, hpiece⟩ :=
      hrow.exists_over_dashes htext
    refine ⟨t, ht, hmeasured.covers rfl hpiece, ?_, hmeasured.kind_of_dashes hpiece⟩
    exact (undivided_of_measure hmeasured.measure_eq).kind_of ⟨inside, outside, hpiece.symm⟩
  · intro hall t ht hkind hdashes
    rcases hrow.eof_or_isMeasured t ht with rfl | ⟨front, x, cs, more, hmeasured⟩
    · contradiction
    rw [hmeasured.isCut.text_eq (by simp [hkind]), String.toList_ofList] at hdashes
    obtain ⟨inside, outside, hpiece⟩ := hdashes
    have htext : text.toList = front ++ inside ++ '-' :: '-' :: (outside ++ more) := by
      rw [hmeasured.toList_eq, ← hpiece]
      simp
    obtain ⟨u, hu, hcovers, henclosed⟩ := hall _ _ htext
    obtain rfl := hcovers.unique h (List.cons_ne_nil '-' ['-']) hu ht
      (hmeasured.covers rfl hpiece.symm)
    rw [hkind] at henclosed
    contradiction
  · intro hnone before after htext
    obtain ⟨t, ht, front, x, cs, more, inside, outside, hmeasured, rfl, hpiece⟩ :=
      hrow.exists_over_dashes htext
    have hdashes : ['-', '-'] <:+: x :: cs := ⟨inside, outside, hpiece.symm⟩
    refine ⟨t, ht, hmeasured.covers rfl hpiece, ?_⟩
    apply ((undivided_of_measure hmeasured.measure_eq).kind_of hdashes).resolve_right
    intro hkind
    apply hnone t ht hkind
    rwa [hmeasured.isCut.text_eq (by simp [hkind]), String.toList_ofList]

/-- Two minus signs in a string and in a comment. -/
theorem dashes_of_list_string :
  ∃ ts, Token.list "'--'--" = .ok ts ∧ ∀ before after,
    "'--'--".toList = before ++ '-' :: '-' :: after →
      ∃ t ∈ ts, t.Covers "'--'--" before ['-', '-'] ∧ t.kind.isEnclosed
  := by
  have hlist : Token.list "'--'--" = .ok [⟨.string, "'--'", ⟨1, 0, 0⟩, ⟨1, 4, 4⟩⟩,
      ⟨.lineComment, "--", ⟨1, 4, 4⟩, ⟨1, 6, 6⟩⟩, .eof ⟨1, 6, 6⟩] := by decide +kernel
  exact ⟨_, hlist, (dashes_of_list hlist).2.2.mpr (by simp [eof])⟩

/-- Behind a name two minus signs begin no comment: the long name takes them along. -/
theorem dashes_in_name :
  ∃ ts, Token.list "a--b" = .ok ts ∧ (∀ t ∈ ts, ¬ t.kind.isEnclosed) ∧
    ∃ t ∈ ts, t.kind = .jobIdentifier ∧ ['-', '-'] <:+: t.text.toList
  := by
  have hlist : Token.list "a--b" =
      .ok [⟨.jobIdentifier, "a--b", ⟨1, 0, 0⟩, ⟨1, 4, 4⟩⟩, .eof ⟨1, 4, 4⟩] := by decide +kernel
  refine ⟨_, hlist, by decide, _, List.mem_cons_self, rfl, ?_⟩
  decide

end Token

end SqlFront
