import SqlFront.Proofs.Tokens.Recount
import SqlFront.Proofs.Tokens.Tiling

/-!
# The tokens of a text, one by one

Every token of a text is measured from the characters that it is written as, with the rest of the
text behind them (`Token.IsMeasured`).  The tokens stand in a row from the beginning of the text to
its end (`Token.row_of_list`), so what holds of all that is measured holds of every token, and every
character of the text belongs to one of them (`Token.Row.exists_over`).
-/

namespace SqlFront

/-- The token `t` is measured from the characters `x :: cs`, which stand behind `front` and before
`more` in the text. -/
structure Token.IsMeasured (text : String) (front : List Char) (x : Char) (cs more : List Char)
    (t : Token) : Prop where
  toList_eq : text.toList = front ++ x :: cs ++ more
  measure_eq : measure x (cs ++ more) = .ok (t.kind, cs.length)
  token_eq : t = ⟨t.kind, textOf t.kind (x :: cs), .following front, .following (front ++ x :: cs)⟩

/-- The tokens `ts` stand in a row from the place behind `front` to the end of the text. -/
inductive Token.Row (text : String) : List Char → List Token → Prop where
  | done : Row text text.toList [.eof (.following text.toList)]
  | more {front cs more : List Char} {x : Char} {t : Token} {ts : List Token}
      (isMeasured : t.IsMeasured text front x cs more) (rest : Row text (front ++ x :: cs) ts) :
      Row text front (t :: ts)

/-- What is taken at a cursor is measured from the characters that are taken. -/
theorem Cursor.isMeasured_of_next {text : String} {front : List Char} {c d : Cursor} {t : Token}
    (hplace : c.position = .following front) (htext : text.toList = front ++ c.rest)
    (hc : c.rest ≠ []) (h : c.next = .ok (t, d)) :
  ∃ x cs, t.IsMeasured text front x cs d.rest ∧ d.position = .following (front ++ x :: cs)
  := by
  obtain ⟨_ | ⟨x, rest⟩, p⟩ := c
  · contradiction
  obtain rfl : p = .following front := hplace
  obtain ⟨kind, n, hfound, rfl, rfl⟩ := next_cons_eq_ok_iff.mp h
  have hlength := List.length_take_of_le (Token.measure_le hfound)
  refine ⟨x, rest.take n, ⟨?_, ?_, ?_⟩, Position.afterAll_following ..⟩
  · simpa [skip] using htext
  · simpa [skip, hlength] using hfound
  · rw [← Position.afterAll_following]
    rfl

/-- The tokens ahead of a cursor stand in a row. -/
theorem Cursor.row_of_tokens {text : String} {front : List Char} {c : Cursor} {ts : List Token}
    (hplace : c.position = .following front) (htext : text.toList = front ++ c.rest)
    (h : c.tokens = .ok ts) :
  Token.Row text front ts
  := by
  fun_induction Cursor.tokens c generalizing front ts with
  | case1 c hrest =>
      rw [hrest, List.append_nil] at htext
      obtain rfl := Except.ok.inj h
      rw [hplace, ← htext]
      exact .done
  | case2 => contradiction
  | case3 c hrest t d hnext ih =>
      obtain ⟨x, cs, hmeasured, hplace'⟩ := isMeasured_of_next hplace htext hrest hnext
      obtain ⟨us, hd, rfl⟩ := map_eq_ok_iff.mp h
      exact .more hmeasured (ih hplace' hmeasured.toList_eq hd)

namespace Token

variable {text : String} {front : List Char} {ts : List Token}

/-- The tokens of a text stand in a row. -/
theorem row_of_list (h : Token.list text = .ok ts) :
  Row text [] ts
  := Cursor.row_of_tokens rfl rfl h

/-- A token that is measured is cut out of the text. -/
theorem IsMeasured.isCut {x : Char} {cs more : List Char} {t : Token}
    (h : t.IsMeasured text front x cs more) :
  t.IsCut text front (x :: cs)
  := by
  rw [h.token_eq]
  apply isCut_of_textOf h.toList_eq
  intro hkind
  have hmeasure := h.measure_eq
  rw [hkind] at hmeasure
  simpa using eq_backQuote_of_measure hmeasure

/-- Every token but the last is measured where it stands. -/
theorem Row.eof_or_isMeasured (h : Row text front ts) :
  ∀ t ∈ ts, t = .eof (.following text.toList) ∨
    ∃ front x cs more, t.IsMeasured text front x cs more
  := by
  induction h with
  | done =>
      intro t ht
      exact .inl (List.mem_singleton.mp ht)
  | more isMeasured _ ih =>
      intro t ht
      rcases List.mem_cons.mp ht with rfl | ht
      · exact .inr ⟨_, _, _, _, isMeasured⟩
      · exact ih t ht

/-- Every character of the text belongs to a token. -/
theorem Row.exists_over (h : Row text front ts) {before after : List Char} {y : Char}
    (htext : text.toList = front ++ (before ++ y :: after)) :
  ∃ t ∈ ts, ∃ front' x cs more inside outside, t.IsMeasured text front' x cs more ∧
    front ++ before = front' ++ inside ∧ x :: cs = inside ++ y :: outside ∧ after = outside ++ more
  := by
  induction h generalizing before with
  | done => simp at htext
  | @more front cs more x t ts isMeasured _ ih =>
      have hsplit := htext
      rw [isMeasured.toList_eq, List.append_assoc, List.append_cancel_left_eq] at hsplit
      rcases List.append_eq_append_iff.mp hsplit with ⟨behind, rfl, -⟩ | ⟨inside, hpiece, hbehind⟩
      · have hrest : text.toList = front ++ x :: cs ++ (behind ++ y :: after) := by
          rw [htext]
          simp
        obtain ⟨u, hu, hover⟩ := ih hrest
        rw [List.append_assoc] at hover
        exact ⟨u, List.mem_cons_of_mem t hu, hover⟩
      · cases inside with
        | nil =>
            rw [List.append_nil] at hpiece
            rw [← hpiece] at htext ⊢
            obtain ⟨u, hu, hover⟩ := @ih [] (by rw [htext]; simp)
            rw [List.append_nil] at hover
            exact ⟨u, List.mem_cons_of_mem t hu, hover⟩
        | cons z outside =>
            obtain ⟨rfl, rfl⟩ := List.cons.inj hbehind
            exact ⟨t, List.mem_cons_self, _, _, _, _, _, _, isMeasured, rfl, hpiece, rfl⟩

end Token

end SqlFront
