import SqlFront.Proofs.Printing.Spacing
import SqlFront.Proofs.Tokens.Alone
import SqlFront.Proofs.Tokens.Append
import SqlFront.Proofs.Tokens.Pieces

/-!
# Tokens by themselves

No token depends on what stands behind it, but for the place where it ends.  So the text that a
token is written as consists of this token (`Token.IsMeasured.list_alone`), and when the texts of
the visible tokens are joined again with a blank between each two, the visible tokens are the same
ones, at other places (`Token.tokens_stand_alone`).

A back-quote is the exception that has to be looked at: it is unrecognized because no other one
stands anywhere behind it.  Then none stands in the pieces behind it either (`Token.Spaced.chars`),
and the back-quote is not closed where these are joined.
-/

namespace SqlFront

namespace Token

variable {text : String} {front rest cs more : List Char} {ts : List Token} {t : Token} {x : Char}
  {n : Nat}

/-! ### Tokens alone -/

/-- The text that a token is written as consists of this token. -/
theorem IsMeasured.list_alone (h : t.IsMeasured text front x cs more) :
  ∃ p, Token.list (String.ofList (x :: cs)) = .ok [⟨t.kind, t.text, .start, p⟩, .eof p]
  := by
  have halone : measure x (cs ++ []) = .ok (t.kind, cs.length) := by
    rw [List.append_nil]
    exact measure_alone h.measure_eq
  have hnext := Cursor.next_of_measure_append .start halone
  have htext : t.text = textOf t.kind (x :: cs) := congrArg Token.text h.token_eq
  use Position.start.afterAll (x :: cs)
  rw [List.append_nil] at hnext
  rw [htext, Token.list, Cursor.ofString, Cursor.ofList, String.toList_ofList,
    Cursor.tokens_of_next (List.cons_ne_nil x cs) hnext, Cursor.tokens_nil]
  rfl

/-! ### Unrecognized characters -/

/-- A back-quote is not closed exactly if no other one follows. -/
theorem backQuotedLength?_eq_none_iff (cs : List Char) :
  backQuotedLength? cs = none ↔ '\x60' ∉ cs
  := by
  induction cs with
  | nil => simp [backQuotedLength?]
  | cons c cs ih =>
      by_cases hc : c = '\x60'
      · subst hc
        simp [backQuotedLength?_backQuote]
      · rw [backQuotedLength?_cons hc, Option.map_eq_none_iff, ih]
        simp [Ne.symm hc]

theorem measureOperator_unrecognized (h : measureOperator x rest = (.unrecognized, n)) :
  n = 0 ∧ ∀ more, measureOperator x more = (.unrecognized, 0)
  := by
  unfold measureOperator at h
  split at h <;> simp_all [measureOperator]

/-- A character is unrecognized whatever follows it, but for a back-quote, which no other one
follows. -/
theorem measure_unrecognized (h : measure x rest = .ok (.unrecognized, n)) :
  n = 0 ∧ ∀ more, ('\x60' ∈ more → '\x60' ∈ rest) → measure x more = .ok (.unrecognized, 0)
  := by
  cases opening x rest with
  | blank isBlank => simp [measure_of_isBlank isBlank] at h
  | string isQuote closed => simp [measure_string isQuote closed] at h
  | openString isQuote endless => simp [measure_openString isQuote endless] at h
  | quoted closed => simp [measure_quoted closed] at h
  | openQuoted endless =>
      rw [measure_openQuoted endless] at h
      rw [backQuotedLength?_eq_none_iff] at endless
      refine ⟨(Prod.mk.inj (Except.ok.inj h)).2.symm, fun more hmore => ?_⟩
      exact measure_openQuoted ((backQuotedLength?_eq_none_iff more).mpr (mt hmore endless))
  | dashes another =>
      obtain ⟨cs, rfl⟩ := List.head?_eq_some_iff.mp another
      simp [measure_dashes] at h
  | slash => rcases (of_measureSlash h).2 with hkind | hkind | hkind <;> contradiction
  | word begins =>
      obtain ⟨⟨kind, m⟩, hbest, -⟩ := Match.exists_longest? begins rest
      have hkind := (Match.of_mem_wordMatches (Match.longest?_mem hbest)).1
      rw [measure_of_longest? begins hbest] at h
      obtain ⟨rfl, -⟩ := Prod.mk.inj (Except.ok.inj h)
      contradiction
  | operator begins =>
      rw [measure_operator begins] at h
      obtain ⟨rfl, hoperator⟩ := measureOperator_unrecognized (Except.ok.inj h)
      refine ⟨rfl, fun more _ => ?_⟩
      rw [measure_operator, hoperator]
      apply begins.congr
      rintro rfl
      simp [measureOperator] at h

/-! ### Tokens with blanks between them -/

theorem isHidden_of_isVisible (h : t.isVisible) :
  t.kind.isHidden = false
  := by
  rw [isVisible, Bool.and_eq_true, Bool.not_eq_true'] at h
  exact h.1

/-- A visible token is measured before a blank as it was in the text, if back-quotes stand behind it
only where some stood behind it there. -/
theorem IsMeasured.measure_spaced (h : t.IsMeasured text front x cs more)
    (hvisible : t.isVisible) (hrest : '\x60' ∈ rest → '\x60' ∈ more) :
  measure x (cs ++ ' ' :: rest) = .ok (t.kind, cs.length)
  := by
  have hmeasure := h.measure_eq
  by_cases hkind : t.kind = .unrecognized
  · rw [hkind] at hmeasure ⊢
    obtain ⟨hlength, hunrecognized⟩ := measure_unrecognized hmeasure
    obtain rfl := List.length_eq_zero_iff.mp hlength
    exact hunrecognized _ (by simpa using hrest)
  · exact measure_whole_blank rest rfl (measure_alone hmeasure) (isHidden_of_isVisible hvisible) hkind

/-- The visible tokens among `ts` are written as `pieces`, the characters of which are among `rest`,
and the pieces with a blank between each two have visible tokens of the same kinds and texts. -/
structure Spaced (text : String) (rest : List Char) (ts : List Token) (pieces : List String) :
    Prop where
  slices : (ts.filter (·.isVisible)).mapM (·.span.slice? text) = some pieces
  chars : ∀ c ∈ (" ".intercalate pieces).toList, c = ' ' ∨ c ∈ rest
  visible : ∀ p, ∃ q us, Cursor.visible ⟨(" ".intercalate pieces).toList, p⟩ = (us, .ok q) ∧
    us.map (fun t => (t.kind, t.text)) =
      (ts.filter (·.isVisible)).map fun t => (t.kind, t.text)

/-- What hidden characters stand in front does not matter. -/
theorem Spaced.hidden {pieces : List String} (h : Spaced text rest ts pieces)
    (ht : t.isVisible = false) :
  Spaced text (cs ++ rest) (t :: ts) pieces
  := by
  have hfilter : (t :: ts).filter (·.isVisible) = ts.filter (·.isVisible) := by simp [ht]
  refine ⟨by rw [hfilter, h.slices], fun c hc => ?_, by rw [hfilter]; exact h.visible⟩
  exact (h.chars c hc).imp_right (List.mem_append_right cs)

theorem IsMeasured.measure_behind {pieces : List String} (h : t.IsMeasured text front x cs rest)
    (ht : t.isVisible) (hspaced : Spaced text rest ts pieces) :
  measure x (cs ++ behind pieces) = .ok (t.kind, cs.length)
  := by
  unfold behind
  split
  · rw [List.append_nil]
    exact measure_alone h.measure_eq
  · apply h.measure_spaced ht
    intro hquote
    exact (hspaced.chars _ hquote).resolve_left (by decide)

/-- One more visible token in front. -/
theorem IsMeasured.spaced {pieces : List String} (h : t.IsMeasured text front x cs rest)
    (ht : t.isVisible) (hspaced : Spaced text rest ts pieces) :
  Spaced text (x :: cs ++ rest) (t :: ts) (String.ofList (x :: cs) :: pieces)
  := by
  have hfilter : (t :: ts).filter (·.isVisible) = t :: ts.filter (·.isVisible) := by simp [ht]
  refine ⟨?_, ?_, ?_⟩
  · rw [hfilter, List.mapM_cons, h.isCut.slice_eq, hspaced.slices]
    rfl
  · intro c hc
    rw [toList_intercalate_cons, String.toList_ofList, List.mem_append] at hc
    rcases hc with hc | hc
    · exact .inr (List.mem_append_left rest hc)
    · unfold behind at hc
      split at hc
      · contradiction
      · rcases List.mem_cons.mp hc with rfl | hc
        · exact .inl rfl
        · exact (hspaced.chars c hc).imp_right (List.mem_append_right _)
  · intro p
    have htext : t.text = textOf t.kind (x :: cs) := congrArg Token.text h.token_eq
    have hnext := Cursor.next_of_measure_append p (h.measure_behind ht hspaced)
    obtain ⟨q, hbehind⟩ := Cursor.visible_behind pieces (p.afterAll (x :: cs))
    obtain ⟨q', us, hvisible, hus⟩ := hspaced.visible q
    rw [toList_intercalate_cons, String.toList_ofList,
      Cursor.visible_of_next (List.cons_ne_nil x _) hnext, isHidden_of_isVisible ht,
      if_neg Bool.false_ne_true, hbehind, hvisible]
    refine ⟨q', _, rfl, ?_⟩
    rw [hfilter, List.map_cons, List.map_cons, hus, htext]

/-- The visible tokens of a row can be written with a blank between each two. -/
theorem Row.exists_spaced (h : Row text front ts) (htext : text.toList = front ++ rest) :
  ∃ pieces, Spaced text rest ts pieces
  := by
  induction h generalizing rest with
  | done =>
      refine ⟨[], by simp [eof, isVisible], by simp, fun p => ⟨p, [], ?_, ?_⟩⟩
      · exact Cursor.visible_of_rest_eq_nil (by simp)
      · simp [eof, isVisible]
  | @more front cs more x t ts isMeasured _ ih =>
      obtain ⟨pieces, hspaced⟩ := ih isMeasured.toList_eq
      have hrest : rest = x :: cs ++ more := by
        rw [isMeasured.toList_eq, List.append_assoc, List.append_cancel_left_eq] at htext
        exact htext.symm
      rw [hrest]
      by_cases ht : t.isVisible
      · exact ⟨_, isMeasured.spaced ht hspaced⟩
      · exact ⟨_, hspaced.hidden (by simpa using ht)⟩

/-- **Tokens stand by themselves.**  The text that a token of a text is written as consists of this
token alone.  And the texts that the visible tokens are written as, with a blank between each two,
make a text with visible tokens of the same kinds, with the same texts. -/
theorem tokens_stand_alone (h : Token.list text = .ok ts) :
  (∀ t ∈ ts, t.kind ≠ .eof → ∃ piece p, t.span.slice? text = some piece ∧
    Token.list piece = .ok [⟨t.kind, t.text, .start, p⟩, .eof p]) ∧
  ∃ pieces us, (ts.filter (·.isVisible)).mapM (·.span.slice? text) = some pieces ∧
    Token.list (" ".intercalate pieces) = .ok us ∧
    (us.filter (·.isVisible)).map (fun t => (t.kind, t.text)) =
      (ts.filter (·.isVisible)).map fun t => (t.kind, t.text)
  := by
  have hrow := row_of_list h
  constructor
  · intro t ht hkind
    rcases hrow.eof_or_isMeasured t ht with rfl | ⟨front, x, cs, more, hmeasured⟩
    · contradiction
    · obtain ⟨p, hlist⟩ := hmeasured.list_alone
      exact ⟨_, p, hmeasured.isCut.slice_eq, hlist⟩
  · obtain ⟨pieces, hspaced⟩ := hrow.exists_spaced rfl
    obtain ⟨q, vs, hvisible, hvs⟩ := hspaced.visible .start
    have hstop : (Cursor.visible ⟨(" ".intercalate pieces).toList, .start⟩).2 = .ok q := by
      rw [hvisible]
    obtain ⟨us, hus, hfilter⟩ := Cursor.tokens_of_visible hstop
    rw [hvisible] at hfilter
    obtain rfl : vs = us.filter (·.isVisible) := hfilter
    exact ⟨pieces, us, hspaced.slices, hus, hvs⟩

/-- The slash before the star of a hint and a back-quote that no other one follows stay what they
are. -/
theorem tokens_stand_alone_hint :
  ∃ us, Token.list "/ * + \x60" = .ok us ∧
    (us.filter (·.isVisible)).map (fun t => (t.kind, t.text)) =
      [(.slash, "/"), (.asterisk, "*"), (.plus, "+"), (.unrecognized, "\x60")]
  := by
  have hlist : Token.list "/*+ \x60" = .ok [⟨.slash, "/", ⟨1, 0, 0⟩, ⟨1, 1, 1⟩⟩,
      ⟨.asterisk, "*", ⟨1, 1, 1⟩, ⟨1, 2, 2⟩⟩, ⟨.plus, "+", ⟨1, 2, 2⟩, ⟨1, 3, 3⟩⟩,
      ⟨.whitespace, " ", ⟨1, 3, 3⟩, ⟨1, 4, 4⟩⟩, ⟨.unrecognized, "\x60", ⟨1, 4, 4⟩, ⟨1, 5, 5⟩⟩,
      .eof ⟨1, 5, 5⟩] := by decide +kernel
  obtain ⟨-, pieces, us, hpieces, hus, hsame⟩ := tokens_stand_alone hlist
  have hslices : some ["/", "*", "+", "\x60"] = some pieces := hpieces ▸ (by decide +kernel)
  obtain rfl := Option.some.inj hslices
  exact ⟨us, hus, hsame⟩

end Token

end SqlFront
