import SqlFront.Proofs.Tokens.Blank
import SqlFront.Proofs.Tokens.Longest
import SqlFront.Proofs.Tokens.Order
import SqlFront.Proofs.Tokens.Recount

/-!
# Texts that are cut behind a token

A token stays what it is where the text is cut behind it or further on, as long as no word goes on
there and no plus sign follows, which would make a hint of a comment that is cut
(`Token.measure_cut`).  So the visible tokens of a text up to some of them are the tokens of the text
up to there (`Cursor.visible_cut`).
-/

namespace SqlFront

/-- What may be cut off: no word goes on with it, and it does not begin with the mark of a hint. -/
structure Token.Separate (more : List Char) : Prop where
  word : Match.endsWord more
  hint : more.head? ≠ some '+'

/-! ### Words and numbers -/

namespace Match

variable {cs more w after after' : List Char} {kind : Kind} {n : Nat}

theorem runLength_cut {p : Char → Bool} (h : runLength p (cs ++ more) ≤ cs.length) :
  runLength p cs = runLength p (cs ++ more)
  := by
  induction cs with
  | nil => exact (Nat.le_zero.mp h).symm
  | cons c cs ih =>
      by_cases hc : p c
      · have hcons : ∀ cs, runLength p (c :: cs) = runLength p cs + 1 := by
          intro cs
          simp [runLength, hc]
        rw [List.cons_append, hcons, List.length_cons] at h
        rw [List.cons_append, hcons, hcons, ih (by omega)]
      · simp [runLength, hc]

theorem endsWord_append_iff (hmore : endsWord more) :
  endsWord (after ++ more) ↔ endsWord after
  := by
  cases after with
  | nil => exact iff_of_true hmore rfl
  | cons c cs => rfl

theorem Pointed.mem_point (h : Pointed w) :
  '.' ∈ w
  := by
  cases h <;> simp

/-- Of what follows a number, it only matters whether a word goes on, and only to numbers with a
point. -/
theorem NumberRule.congr {form : NumberForm} (h : NumberRule form w after)
    (hafter : '.' ∈ w → endsWord after → endsWord after') :
  NumberRule form w after'
  := by
  cases h with
  | bigInt digits mark => exact .bigInt digits mark
  | smallInt digits mark => exact .smallInt digits mark
  | tinyInt digits mark => exact .tinyInt digits mark
  | byteLength digits mark => exact .byteLength digits mark
  | integer digits => exact .integer digits
  | decimal digits exponent => exact .decimal digits exponent
  | pointDecimal point scale ends =>
      exact .pointDecimal point scale (hafter (by simp [point.mem_point]) ends)
  | double digits scale mark => exact .double digits scale mark
  | pointDouble point scale mark ends =>
      exact .pointDouble point scale mark (hafter (by simp [point.mem_point]) ends)
  | bigDecimal digits scale mark mark' => exact .bigDecimal digits scale mark mark'
  | pointBigDecimal point scale mark mark' ends =>
      exact .pointBigDecimal point scale mark mark' (hafter (by simp [point.mem_point]) ends)

theorem WordRule.congr (h : WordRule kind w after)
    (hafter : '.' ∈ w → endsWord after → endsWord after') :
  WordRule kind w after'
  := by
  cases h with
  | keyword word spells => exact .keyword word spells
  | number isNumber => exact .number (isNumber.congr hafter)
  | identifier word => exact .identifier word
  | jobIdentifier first others => exact .jobIdentifier first others
  | dot => exact .dot

/-- The longest match of a text that goes on stays the longest one where the text is cut behind it:
the instances of the rules within the cut text are the same in both. -/
theorem longest?_cut {c : Char} (hc : isWordChar c ∨ c = '.') (hmore : endsWord more)
    (h : longest? (wordMatches (c :: cs ++ more)) = some (kind, n)) (hn : n ≤ (c :: cs).length) :
  longest? (wordMatches (c :: cs)) = some (kind, n)
  := by
  obtain ⟨⟨kind', n'⟩, hbest, -⟩ := exists_longest? hc cs
  generalize c :: cs = cs at h hn hbest
  have hmem' := longest?_mem hbest
  have hfound := wordRule_of_mem (longest?_mem h)
  have hfound' := wordRule_of_mem hmem'
  simp only [List.take_append_of_le_length hn, List.drop_append_of_le_length hn] at hfound
  -- the longest matches of both texts are pieces of the text that is cut
  obtain ⟨w, after, hcs, rfl, hrule⟩ : ∃ w after, cs = w ++ after ∧ w.length = n ∧
      WordRule kind w (after ++ more) :=
    ⟨_, _, (List.take_append_drop n cs).symm, List.length_take_of_le hn, hfound⟩
  obtain ⟨w', after', hcs', rfl, hrule'⟩ : ∃ w' after', cs = w' ++ after' ∧ w'.length = n' ∧
      WordRule kind' w' after' :=
    ⟨_, _, (List.take_append_drop n' cs).symm,
      List.length_take_of_le (of_mem_wordMatches hmem').2, hfound'⟩
  have hlonger := lt_or_eq_of_wordRule h (by rw [hcs, List.append_assoc]) hrule
    (by rw [hcs', List.append_assoc]) (hrule'.congr fun _ => (endsWord_append_iff hmore).mpr)
  have hlonger' := lt_or_eq_of_wordRule hbest hcs' hrule' hcs
    (hrule.congr fun _ => (endsWord_append_iff hmore).mp)
  rw [hbest]
  rcases hlonger with hlt | ⟨rfl, rfl | hlt⟩
  · have := hlonger'.resolve_left (by omega)
    rw [this.1] at hlt
    exact absurd hlt (Nat.lt_irrefl _)
  · rfl
  · rcases hlonger' with hlt' | ⟨-, rfl | hlt'⟩
    · exact absurd hlt' (Nat.lt_irrefl _)
    · rfl
    · omega

end Match

/-! ### Texts, names, comments and operators -/

namespace Token

variable {cs more : List Char} {kind : Kind} {n : Nat}

theorem stringLength?_pos {quote : Char} (h : stringLength? quote cs = some n) :
  0 < n
  := by
  rw [stringLength?.eq_def] at h
  split at h
  · contradiction
  · contradiction
  · obtain ⟨m, -, rfl⟩ := Option.map_eq_some_iff.mp h
    exact Nat.succ_pos _
  · split at h
    · obtain rfl := Option.some.inj h
      exact Nat.one_pos
    · obtain ⟨m, -, rfl⟩ := Option.map_eq_some_iff.mp h
      exact Nat.succ_pos m

theorem stringLength?_cut {quote : Char} (h : stringLength? quote (cs ++ more) = some n)
    (hn : n ≤ cs.length) :
  stringLength? quote cs = some n
  := by
  fun_induction stringLength? quote cs generalizing n with
  | case1 => exact absurd (stringLength?_pos h) (by simpa using hn)
  | case2 =>
      cases more with
      | nil => exact h
      | cons c more =>
          obtain ⟨m, hm, rfl⟩ := Option.map_eq_some_iff.mp h
          simp at hn
  | case3 c cs ih =>
      obtain ⟨m, hm, rfl⟩ := Option.map_eq_some_iff.mp h
      rw [ih hm (by simpa using hn)]
      rfl
  | case4 cs hempty hescape =>
      rwa [List.cons_append, stringLength?_cons (ne_backslash hempty hescape), if_pos rfl] at h
  | case5 c cs hempty hescape hquote ih =>
      rw [List.cons_append, stringLength?_cons (ne_backslash hempty hescape), if_neg hquote] at h
      obtain ⟨m, hm, rfl⟩ := Option.map_eq_some_iff.mp h
      rw [ih hm (by simpa using hn)]
      rfl

theorem commentLength?_pos (h : commentLength? cs = some n) :
  0 < n
  := by
  rw [commentLength?.eq_def] at h
  split at h
  · obtain rfl := Option.some.inj h
    exact Nat.two_pos
  · obtain ⟨m, -, rfl⟩ := Option.map_eq_some_iff.mp h
    exact Nat.succ_pos m
  · contradiction

theorem commentLength?_cut (h : commentLength? (cs ++ more) = some n) (hn : n ≤ cs.length) :
  commentLength? cs = some n
  := by
  fun_induction commentLength? cs generalizing n with
  | case1 => simpa [commentLength?] using h
  | case2 c cs hend ih =>
      have hend' : ∀ tail, c = '*' → cs ++ more = '/' :: tail → False := by
        rintro tail rfl htail
        cases cs with
        | nil =>
            rw [List.nil_append] at htail
            subst htail
            simp only [List.cons_append, List.nil_append, commentLength?, Option.some.injEq] at h
            subst h
            simp at hn
        | cons d cs => exact hend cs rfl (by rw [(List.cons.inj htail).1])
      rw [List.cons_append, commentLength?] at h
      · obtain ⟨m, hm, rfl⟩ := Option.map_eq_some_iff.mp h
        rw [ih hm (by simpa using hn)]
        rfl
      · exact hend'
  | case3 => exact absurd (commentLength?_pos h) (by simpa using hn)

theorem backQuotedLength?_pos (h : backQuotedLength? cs = some n) :
  0 < n
  := by
  rw [backQuotedLength?.eq_def] at h
  split at h
  · contradiction
  · next cs =>
      obtain rfl := Option.some.inj h
      cases backQuotedLength? cs <;> simp
  · obtain rfl := Option.some.inj h
    exact Nat.one_pos
  · obtain ⟨m, -, rfl⟩ := Option.map_eq_some_iff.mp h
    exact Nat.succ_pos m

theorem backQuotedLength?_backQuote (cs : List Char) :
  backQuotedLength? ('\x60' :: cs) ≠ none
  := by
  cases cs with
  | nil => exact Option.some_ne_none 1
  | cons c cs =>
      by_cases hc : c = '\x60'
      · subst hc
        exact Option.some_ne_none _
      · simp [backQuotedLength?, hc]

/-- Where nothing closes a name, nothing closes it in the text that is cut. -/
theorem backQuotedLength?_eq_none (h : backQuotedLength? (cs ++ more) = none) :
  backQuotedLength? cs = none
  := by
  induction cs with
  | nil => rfl
  | cons c cs ih =>
      by_cases hc : c = '\x60'
      · subst hc
        exact absurd h (backQuotedLength?_backQuote _)
      · rw [List.cons_append, backQuotedLength?_cons hc, Option.map_eq_none_iff] at h
        rw [backQuotedLength?_cons hc, ih h]
        rfl

theorem backQuotedLength?_cut (h : backQuotedLength? (cs ++ more) = some n) (hn : n ≤ cs.length) :
  backQuotedLength? cs = some n
  := by
  fun_induction backQuotedLength? cs generalizing n with
  | case1 => exact absurd (backQuotedLength?_pos h) (by simpa using hn)
  | case2 cs ih =>
      simp only [List.cons_append, backQuotedLength?, Option.some.injEq] at h
      subst h
      cases hfull : backQuotedLength? (cs ++ more) with
      | none => rw [backQuotedLength?_eq_none hfull]
      | some m => rw [ih hfull (by simpa [hfull] using hn)]
  | case3 cs hcs =>
      cases cs with
      | cons c cs =>
          have hc : c ≠ '\x60' := fun hc => hcs cs (by rw [hc])
          simpa [backQuotedLength?, hc] using h
      | nil =>
          have hpos := backQuotedLength?_pos h
          have hone : n = 1 := Nat.le_antisymm hn hpos
          rw [hone]
  | case4 c cs hdouble hc ih =>
      have hc' : c ≠ '\x60' := by
        rintro rfl
        exact hc rfl
      rw [List.cons_append, backQuotedLength?_cons hc'] at h
      obtain ⟨m, hm, rfl⟩ := Option.map_eq_some_iff.mp h
      rw [ih hm (by simpa using hn)]
      rfl

theorem lineEndLength_cut (h : lineEndLength (cs ++ more) ≤ cs.length) :
  lineEndLength cs = lineEndLength (cs ++ more)
  := by
  cases cs with
  | nil => exact (Nat.le_zero.mp h).symm
  | cons c cs =>
      by_cases hc : c = '\r'
      · subst hc
        rcases cs with _ | ⟨d, cs⟩
        · rcases more with _ | ⟨d, more⟩
          · rfl
          · by_cases hd : d = '\n'
            · subst hd
              contradiction
            · simp [lineEndLength, hd]
        · by_cases hd : d = '\n'
          · subst hd
            rfl
          · simp [lineEndLength, hd]
      · by_cases hn : c = '\n'
        · subst hn
          rfl
        · simp [lineEndLength, hc, hn]

theorem lineLength_cut (h : lineLength (cs ++ more) ≤ cs.length) :
  lineLength cs = lineLength (cs ++ more)
  := by
  simp only [lineLength] at h ⊢
  have hrun := Match.runLength_cut (Nat.le_trans (Nat.le_add_right _ _) h)
  have hle := Match.runLength_le (fun c => c != '\r' && c != '\n') cs
  rw [← hrun, List.drop_append_of_le_length hle] at h ⊢
  rw [lineEndLength_cut]
  rw [List.length_drop]
  omega

theorem measureSlash_of_ne {c : Char} (hc : c ≠ '*') (cs : List Char) :
  measureSlash (c :: cs) = .ok (.slash, 0)
  := by
  simp [measureSlash, hc]

theorem measureSlash_comment {c : Char} (hempty : ¬ (c = '*' ∧ cs.head? = some '/'))
    (hhint : c ≠ '+') :
  measureSlash ('*' :: c :: cs) =
    ((commentLength? cs).map fun n => (Kind.blockComment, n + 2)).elim (.error .openComment) .ok
  := by
  have hempty' : ∀ tail, c = '*' → cs = '/' :: tail → False := by
    rintro tail rfl rfl
    exact hempty ⟨rfl, rfl⟩
  rw [measureSlash]
  · cases commentLength? cs <;> rfl
  · exact hempty'
  · exact hhint

/-- A comment has more than one character behind its slash. -/
theorem measureSlash_short {c : Char} (hhint : c ≠ '+') (hn : n ≤ 1) :
  measureSlash ('*' :: c :: cs) ≠ .ok (kind, n)
  := by
  intro h
  by_cases hempty : c = '*' ∧ cs.head? = some '/'
  · obtain ⟨rfl, hhead⟩ := hempty
    obtain ⟨cs, rfl⟩ := List.head?_eq_some_iff.mp hhead
    obtain ⟨-, rfl⟩ := Prod.mk.inj (Except.ok.inj h)
    contradiction
  · rw [measureSlash_comment hempty hhint] at h
    cases hlength : commentLength? cs with
    | none => simp [hlength] at h
    | some m =>
        rw [hlength] at h
        obtain ⟨-, rfl⟩ := Prod.mk.inj (Except.ok.inj h)
        omega

/-- A comment that is closed stays one, and a slash stays a slash unless the mark of a hint is cut
off. -/
theorem measureSlash_cut (h : measureSlash (cs ++ more) = .ok (kind, n)) (hn : n ≤ cs.length)
    (hhint : cs = ['*'] → more.head? ≠ some '+') :
  measureSlash cs = .ok (kind, n)
  := by
  rcases cs with _ | ⟨c, cs⟩
  · rcases more with _ | ⟨c, _ | ⟨d, more⟩⟩
    · exact h
    · by_cases hc : c = '*'
      · subst hc
        contradiction
      · rwa [List.nil_append, measureSlash_of_ne hc] at h
    · by_cases hc : c = '*'
      · subst hc
        by_cases hd : d = '+'
        · subst hd
          exact h
        · exact absurd h (measureSlash_short hd (Nat.le_succ_of_le hn))
      · rwa [List.nil_append, measureSlash_of_ne hc] at h
  by_cases hc : c = '*'
  swap
  · rw [List.cons_append, measureSlash_of_ne hc] at h
    rw [measureSlash_of_ne hc, h]
  subst hc
  rcases cs with _ | ⟨d, cs⟩
  · rcases more with _ | ⟨d, more⟩
    · contradiction
    · exact absurd h (measureSlash_short (by simpa using hhint rfl) hn)
  by_cases hd : d = '+'
  · subst hd
    exact h
  by_cases hempty : d = '*' ∧ cs.head? = some '/'
  · obtain ⟨rfl, hhead⟩ := hempty
    obtain ⟨cs, rfl⟩ := List.head?_eq_some_iff.mp hhead
    exact h
  by_cases hempty' : d = '*' ∧ (cs ++ more).head? = some '/'
  · obtain ⟨rfl, hhead⟩ := hempty'
    cases cs with
    | nil =>
        obtain ⟨more, rfl⟩ := List.head?_eq_some_iff.mp hhead
        obtain ⟨-, rfl⟩ := Prod.mk.inj (Except.ok.inj h)
        contradiction
    | cons e cs => exact absurd ⟨rfl, hhead⟩ hempty
  · rw [List.cons_append, List.cons_append, measureSlash_comment hempty' hd] at h
    rw [measureSlash_comment hempty hd]
    cases hlength : commentLength? (cs ++ more) with
    | none => simp [hlength] at h
    | some m =>
        rw [hlength] at h
        obtain ⟨rfl, rfl⟩ := Prod.mk.inj (Except.ok.inj h)
        rw [commentLength?_cut hlength (by simpa using hn)]
        rfl

theorem measureOperator_cut {c : Char} (h : measureOperator c (cs ++ more) = (kind, n))
    (hn : n ≤ cs.length) :
  measureOperator c cs = (kind, n)
  := by
  rcases cs with _ | ⟨x, _ | ⟨y, cs⟩⟩
  · obtain rfl := Nat.le_zero.mp hn
    unfold measureOperator at h ⊢
    split at h <;> simp_all
  · by_cases hx : c = '<' ∧ x = '='
    · obtain ⟨rfl, rfl⟩ := hx
      rcases more with _ | ⟨y, more⟩
      · exact h
      · by_cases hy : y = '>'
        · subst hy
          obtain ⟨-, rfl⟩ := Prod.mk.inj h
          contradiction
        · simpa [measureOperator, hy] using h
    · rwa [List.cons_append, measureOperator_cons hx] at h
  · rwa [List.cons_append, List.cons_append, measureOperator_cons_cons,
      ← measureOperator_cons_cons c x y cs] at h

/-! ### Any token -/

/-- A token stays what it is where the text is cut behind it or further on, if slashes and words
do. -/
theorem measure_cut_of {c : Char} (h : measure c (cs ++ more) = .ok (kind, n)) (hn : n ≤ cs.length)
    (hslash : measureSlash (cs ++ more) = .ok (kind, n) → measureSlash cs = .ok (kind, n))
    (hword : Match.isWordChar c ∨ c = '.' →
      Match.longest? (Match.wordMatches (c :: cs ++ more)) = some (kind, n + 1) →
      Match.longest? (Match.wordMatches (c :: cs)) = some (kind, n + 1)) :
  measure c cs = .ok (kind, n)
  := by
  cases opening c (cs ++ more) with
  | blank isBlank =>
      rw [measure_of_isBlank isBlank] at h ⊢
      obtain ⟨rfl, rfl⟩ := Prod.mk.inj (Except.ok.inj h)
      rw [Match.runLength_cut hn]
  | string isQuote closed =>
      rw [measure_string isQuote closed] at h
      obtain ⟨rfl, rfl⟩ := Prod.mk.inj (Except.ok.inj h)
      exact measure_string isQuote (stringLength?_cut closed hn)
  | openString isQuote endless => simp [measure_openString isQuote endless] at h
  | quoted closed =>
      rw [measure_quoted closed] at h
      obtain ⟨rfl, rfl⟩ := Prod.mk.inj (Except.ok.inj h)
      exact measure_quoted (backQuotedLength?_cut closed hn)
  | openQuoted endless =>
      rw [measure_openQuoted endless] at h
      rw [← h]
      exact measure_openQuoted (backQuotedLength?_eq_none endless)
  | dashes another =>
      cases cs with
      | nil =>
          obtain ⟨more, rfl⟩ := List.head?_eq_some_iff.mp another
          obtain ⟨rfl, rfl⟩ := Prod.mk.inj (Except.ok.inj h)
          simp at hn
      | cons d cs =>
          obtain rfl := Option.some.inj another
          rw [List.cons_append, measure_dashes] at h
          obtain ⟨rfl, rfl⟩ := Prod.mk.inj (Except.ok.inj h)
          have hle : lineLength (cs ++ more) ≤ cs.length := by
            rw [List.length_cons] at hn
            omega
          rw [measure_dashes, lineLength_cut hle]
  | slash => exact hslash h
  | word begins =>
      obtain ⟨⟨kind', m⟩, hbest, hpos⟩ := Match.exists_longest? begins (cs ++ more)
      rw [measure_of_longest? begins hbest] at h
      obtain ⟨rfl, rfl⟩ := Prod.mk.inj (Except.ok.inj h)
      rw [measure_of_longest? begins (hword begins _)]
      · rfl
      · rw [Nat.sub_add_cancel hpos]
        exact hbest
  | operator begins =>
      rw [measure_operator begins] at h
      rw [measure_operator, measureOperator_cut (Except.ok.inj h) hn]
      apply begins.congr
      rintro rfl hhead
      obtain ⟨cs, rfl⟩ := List.head?_eq_some_iff.mp hhead
      exact begins.noDashes ⟨rfl, rfl⟩

/-- A token stays what it is where the text is cut behind it or further on, if what is cut off may
be. -/
theorem measure_cut {c : Char} (h : measure c (cs ++ more) = .ok (kind, n)) (hn : n ≤ cs.length)
    (hmore : Separate more) :
  measure c cs = .ok (kind, n)
  := by
  apply measure_cut_of h hn
  · intro hslash
    exact measureSlash_cut hslash hn fun _ => hmore.hint
  · intro hc hbest
    apply Match.longest?_cut hc hmore.word hbest
    rw [List.length_cons]
    omega

/-- The text may be cut before what is hidden, and before a semicolon. -/
theorem separate_of_measure {c : Char} (h : measure c cs = .ok (kind, n))
    (hkind : kind.isHidden ∨ kind = .semicolon) :
  Separate (c :: cs)
  := by
  constructor
  · rw [Match.endsWord, Bool.not_eq_true', Bool.eq_false_iff]
    intro hword
    obtain ⟨⟨kind', m⟩, hbest, -⟩ := Match.exists_longest? (.inl hword) cs
    have hfound := (Match.of_mem_wordMatches (Match.longest?_mem hbest)).1
    rw [measure_of_longest? (.inl hword) hbest] at h
    obtain ⟨rfl, -⟩ := Prod.mk.inj (Except.ok.inj h)
    rcases hkind with hhidden | rfl
    · cases kind' <;> contradiction
    · contradiction
  · intro hplus
    obtain rfl := Option.some.inj hplus
    obtain ⟨rfl, -⟩ := Prod.mk.inj (Except.ok.inj h)
    rcases hkind with hhidden | hsemicolon <;> contradiction

end Token

/-! ### The visible tokens of a part of a text -/

namespace Cursor

variable {c d : Cursor} {t : Token} {ts us : List Token} {cs rest more : List Char} {p q : Position}

/-- The next token is the same where the text is cut behind it or further on. -/
theorem next_cut {x : Char} (h : next ⟨x :: (cs ++ more), p⟩ = .ok (t, ⟨rest ++ more, q⟩))
    (hmore : Token.Separate more) :
  next ⟨x :: cs, p⟩ = .ok (t, ⟨rest, q⟩)
  := by
  obtain ⟨kind, n, hfound, rfl, hskip⟩ := next_cons_eq_ok_iff.mp h
  have hle := Token.measure_le hfound
  simp only [skip, List.drop_succ_cons, List.take_succ_cons, mk.injEq] at hskip
  obtain ⟨hrest, rfl⟩ := hskip
  have hlength := congrArg List.length hrest
  simp only [List.length_drop, List.length_append] at hle hlength
  have hn : n ≤ cs.length := by omega
  rw [List.drop_append_of_le_length hn, List.append_left_inj] at hrest
  subst hrest
  rw [next_of_measure p (Token.measure_cut hfound hn hmore)]
  simp only [skip, List.drop_succ_cons, List.take_succ_cons, List.take_append_of_le_length hn]

/-- What is visible in a text that is cut begins with the next token, unless that is hidden. -/
theorem exists_piece_of_cut (hc : c.rest ≠ []) (h : c.next = .ok (t, d)) (hd : d.rest = rest ++ more)
    (hmore : Token.Separate more) :
  ∃ piece, c.rest = piece ++ rest ++ more ∧ d.position = c.position.afterAll piece ∧
    t.span = ⟨c.position, d.position⟩ ∧
    visible ⟨piece ++ rest, c.position⟩ =
      if t.kind.isHidden then visible ⟨rest, d.position⟩
      else (t :: (visible ⟨rest, d.position⟩).1, (visible ⟨rest, d.position⟩).2)
  := by
  obtain ⟨piece, hne, hrest, hposition, hspan⟩ := exists_piece_of_next hc h
  rw [hd, ← List.append_assoc] at hrest
  refine ⟨piece, hrest, hposition, hspan, ?_⟩
  obtain ⟨x, xs, rfl⟩ := List.exists_cons_of_ne_nil hne
  obtain ⟨_, p⟩ := c
  obtain ⟨_, q⟩ := d
  simp only at hrest hd
  subst hrest hd
  exact visible_of_next (List.cons_ne_nil _ _) (next_cut h hmore)

/-- The text may be cut before its end, and where a semicolon is the next visible token. -/
theorem separate_of_peek {a : Span} (h : (⟨c.visible.1, c.visible.2, a⟩ : Tape).peek 0 = .ok t)
    (ht : t.kind = .semicolon ∨ t.kind = .eof) :
  Token.Separate c.rest
  := by
  obtain ⟨_ | ⟨x, cs⟩, p⟩ := c
  · exact ⟨rfl, by simp⟩
  cases hnext : next ⟨x :: cs, p⟩ with
  | error e =>
      rw [visible_of_fault (List.cons_ne_nil x cs) hnext] at h
      contradiction
  | ok found =>
      obtain ⟨u, d⟩ := found
      have hvisible := visible_of_next (List.cons_ne_nil x cs) hnext
      have hu : u.kind.isHidden ∨ u.kind = .semicolon := by
        by_cases hhidden : u.kind.isHidden
        · exact .inl hhidden
        · rw [hvisible, if_neg hhidden] at h
          obtain rfl : u = t := Except.ok.inj h
          exact .inr (ht.resolve_right (kind_ne_eof_of_next (List.cons_ne_nil x cs) hnext))
      obtain ⟨kind, n, hfound, rfl, -⟩ := next_cons_eq_ok_iff.mp hnext
      exact Token.separate_of_measure hfound hu

/-- **Cutting a text.**  Up to the last of some visible tokens, a text has these tokens. -/
theorem visible_cut (h : c.visible.1 = ts ++ us) (hne : ts ≠ [])
    (hseparate : ∀ d : Cursor, d.visible = (us, c.visible.2) → Token.Separate d.rest) :
  ∃ w more, c.rest = w ++ more ∧ Token.Separate more ∧
    (Span.over ts).stop = c.position.afterAll w ∧
    visible ⟨w, c.position⟩ = (ts, .ok (c.position.afterAll w))
  := by
  fun_induction visible c generalizing ts with
  | case1 | case2 => exact absurd (List.append_eq_nil_iff.mp h.symm).1 hne
  | case3 c hc t d hnext ts' stop hvisible hhidden ih =>
      rw [hvisible] at ih
      obtain ⟨w, more, hrest, hmore, hstop, hcut⟩ := ih h hne hseparate
      obtain ⟨piece, hpiece, hposition, -, hvisible⟩ := exists_piece_of_cut hc hnext hrest hmore
      rw [if_pos hhidden, hcut] at hvisible
      rw [hposition, ← Position.afterAll_append] at hstop hvisible
      exact ⟨piece ++ w, more, hpiece, hmore, hstop, hvisible⟩
  | case4 c hc t d hnext ts' stop hvisible hhidden ih =>
      obtain ⟨u, ts, rfl⟩ := List.exists_cons_of_ne_nil hne
      obtain ⟨rfl, hts⟩ := List.cons.inj h
      cases ts with
      | nil =>
          subst hts
          have hmore := hseparate d hvisible
          obtain ⟨piece, hpiece, hposition, hspan, hcut⟩ := exists_piece_of_cut hc hnext
            (List.nil_append d.rest).symm hmore
          rw [if_neg hhidden, visible_of_rest_eq_nil (c := ⟨[], d.position⟩) rfl, hposition,
            List.append_nil] at hcut
          rw [List.append_nil] at hpiece
          refine ⟨piece, d.rest, hpiece, hmore, ?_, hcut⟩
          rw [Span.over_singleton, hspan, hposition]
      | cons v ts =>
          rw [hvisible] at ih
          obtain ⟨w, more, hrest, hmore, hstop, hcut⟩ := ih hts (List.cons_ne_nil v ts) hseparate
          obtain ⟨piece, hpiece, hposition, -, hvisible⟩ := exists_piece_of_cut hc hnext hrest hmore
          rw [if_neg hhidden, hcut] at hvisible
          rw [hposition, ← Position.afterAll_append] at hstop hvisible
          exact ⟨piece ++ w, more, hpiece, hmore, hstop, hvisible⟩

/-- Before a visible token, all those before it are taken, and it begins there. -/
theorem exists_visible_of_append (h : c.visible.1 = ts ++ t :: us) :
  ∃ before, ∃ d : Cursor, c.rest = before ++ d.rest ∧ d.position = c.position.afterAll before ∧
    d.visible = (t :: us, c.visible.2) ∧ t.span.start = d.position
  := by
  fun_induction visible c generalizing ts with
  | case1 | case2 => exact absurd h.symm (by simp)
  | case3 c hc u d hnext us' stop hvisible hhidden ih =>
      rw [hvisible] at ih
      obtain ⟨before, d', hrest, hposition, hd, hstart⟩ := ih h
      obtain ⟨piece, -, hpiece, hafter, -⟩ := exists_piece_of_next hc hnext
      refine ⟨piece ++ before, d', ?_, ?_, hd, hstart⟩
      · rw [hpiece, hrest, List.append_assoc]
      · rw [hposition, hafter, Position.afterAll_append]
  | case4 c hc u d hnext us' stop hvisible hhidden ih =>
      obtain ⟨piece, -, hpiece, hafter, hspan⟩ := exists_piece_of_next hc hnext
      cases ts with
      | nil =>
          obtain ⟨rfl, rfl⟩ := List.cons.inj h
          refine ⟨[], c, rfl, rfl, ?_, by rw [hspan]⟩
          rw [visible_of_next hc hnext, if_neg hhidden, hvisible]
      | cons v ts =>
          rw [hvisible] at ih
          obtain ⟨before, d', hrest, hposition, hd, hstart⟩ := ih (List.cons.inj h).2
          refine ⟨piece ++ before, d', ?_, ?_, hd, hstart⟩
          · rw [hpiece, hrest, List.append_assoc]
          · rw [hposition, hafter, Position.afterAll_append]

end Cursor

/-- What the region of some tokens of a text slices out has these tokens, counted from its beginning,
if the text may be cut behind them. -/
theorem Tape.exists_slice {text : String} {front used rest : List Token} {t : Token} {a : Span}
    (h : (ofString text).tokens = front ++ (used ++ rest)) (hne : used ≠ [])
    (hpeek : (⟨rest, (ofString text).stop, a⟩ : Tape).peek 0 = .ok t)
    (ht : t.kind = .semicolon ∨ t.kind = .eof) :
  ∃ w p, (Span.over used).slice? text = some w ∧
    ofString w =
      move (.since (Span.over used).start) ⟨used, .ok p, .point (Span.over used).start⟩
  := by
  obtain ⟨u, us, rfl⟩ := List.exists_cons_of_ne_nil hne
  obtain ⟨before, d, hrest, hposition, hd, hstart⟩ :=
    Cursor.exists_visible_of_append (c := .ofString text) h
  obtain ⟨w, more, hw, -, hstop, hcut⟩ := Cursor.visible_cut (congrArg Prod.fst hd) hne (by
    intro d' hd'
    rw [hd] at hd'
    apply Cursor.separate_of_peek (a := a) _ ht
    rw [hd']
    exact hpeek)
  have hmoved := Cursor.visible_recounts (c := ⟨w, d.position⟩) (Position.since_recounts d.position)
  rw [hcut] at hmoved
  have hspan : Span.over (u :: us) = ⟨.following before, .following (before ++ w)⟩ := by
    have hplace : d.position = .following before := by
      rw [hposition]
      exact Position.afterAll_start before
    rw [← Position.afterAll_following, ← hplace, ← hstop, ← hstart]
    rfl
  have htext : text = String.ofList (before ++ w ++ more) := by
    have hall : text.toList = before ++ d.rest := hrest
    rw [List.append_assoc, ← hw, ← hall, String.ofList_toList]
  refine ⟨String.ofList w, d.position.afterAll w, ?_, ?_⟩
  · rw [hspan, htext]
    exact Span.slice?_following before w more
  · have hpoint : Span.point .start = move (.since u.span.start) (.point u.span.start) := by
      change _ = Span.point (.since u.span.start u.span.start)
      rw [Position.since_self]
    change Tape.mk (Cursor.ofList (String.ofList w).toList).visible.1
      (Cursor.ofList (String.ofList w).toList).visible.2 (.point .start) = _
    rw [String.toList_ofList, Cursor.ofList, hmoved, hpoint, ← hstart]
    rfl

end SqlFront
