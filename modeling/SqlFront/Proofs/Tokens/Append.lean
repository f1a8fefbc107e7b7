import Mathlib.Data.List.TakeWhile
import SqlFront.Proofs.Tokens.Blank
import SqlFront.Proofs.Tokens.Place
import SqlFront.Proofs.Tokens.Recount

/-!
# Texts that go on in another line

When a text without fault goes on behind a line feed, its tokens stay what they are, as long as none
of them is unrecognized, and behind them stand those of the other text
(`Tape.ofString_append`).  The line feed ends a line comment at the end of the text or follows its
carriage return; otherwise it is white space.

The tokens of the other text are those that it has by itself, further down: lines and bytes are
counted from the beginning of the whole, columns stay.
-/

namespace SqlFront

/-- Behind a line feed begins what stands further down. -/
theorem Position.afterAll_line (text : String) :
  start.afterAll (text ++ "\n").toList = below (text ++ "\n") start
  := by
  rw [afterAll_start, following, below, String.ofList_toList, String.toList_append]
  simp [start, Nat.add_comm]

namespace Cursor

variable {c d : Cursor} {t : Token}

/-! ### Blanks -/

open Token (isBlank)

/-- White space may be taken in one go. -/
theorem visible_skip_blanks (c : Cursor) :
  c.visible = (c.skip (Match.runLength isBlank c.rest)).visible
  := by
  obtain ⟨cs, p⟩ := c
  cases cs with
  | nil => rfl
  | cons x cs =>
      by_cases hx : isBlank x
      · have hlength : Match.runLength isBlank (x :: cs) = Match.runLength isBlank cs + 1 := by
          simp [Match.runLength, hx]
        have hmeasure : Token.measure x cs = .ok (.whitespace, Match.runLength isBlank cs) := by
          rw [Token.measure, if_pos hx]
        rw [visible_of_next (List.cons_ne_nil x cs) (next_of_measure p hmeasure), hlength]
        rfl
      · have hlength : Match.runLength isBlank (x :: cs) = 0 := by
          simp [Match.runLength, hx]
        rw [hlength, skip_zero]

theorem visible_cons_blank {x : Char} (hx : isBlank x) (cs : List Char) (p : Position) :
  visible ⟨x :: cs, p⟩ = visible ⟨cs, p.after x⟩
  := by
  have hlength : Match.runLength isBlank (x :: cs) = Match.runLength isBlank cs + 1 := by
    simp [Match.runLength, hx]
  rw [visible_skip_blanks, hlength, skip_succ, ← visible_skip_blanks ⟨cs, p.after x⟩]

theorem visible_blanks {xs : List Char} (hxs : ∀ x ∈ xs, isBlank x) (cs : List Char)
    (p : Position) :
  visible ⟨xs ++ cs, p⟩ = visible ⟨cs, p.afterAll xs⟩
  := by
  induction xs generalizing p with
  | nil => rfl
  | cons x xs ih =>
      rw [List.forall_mem_cons] at hxs
      rw [List.cons_append, visible_cons_blank hxs.1, ih hxs.2, Position.afterAll_cons]

/-- A token that begins with a blank consists of blanks. -/
theorem next_blank {x : Char} {cs : List Char} {p : Position} (hx : isBlank x)
    (h : next ⟨x :: cs, p⟩ = .ok (t, d)) :
  t.kind = .whitespace ∧
    ∃ xs, (∀ x ∈ xs, isBlank x) ∧ x :: cs = xs ++ d.rest ∧ d.position = p.afterAll xs
  := by
  have hmeasure : Token.measure x cs = .ok (.whitespace, Match.runLength isBlank cs) := by
    rw [Token.measure, if_pos hx]
  rw [next_of_measure p hmeasure, Except.ok.injEq, Prod.mk.injEq] at h
  obtain ⟨rfl, rfl⟩ := h
  refine ⟨rfl, _, ?_, (List.take_append_drop _ _).symm, rfl⟩
  rw [List.take_succ_cons, List.forall_mem_cons, Match.runLength,
    ← List.prefix_iff_eq_take.mp (List.takeWhile_prefix isBlank)]
  exact ⟨hx, fun y hy => List.mem_takeWhile_imp hy⟩

/-! ### Line comments -/

theorem lineLength_cons {c : Char} (hc : c ≠ '\r' ∧ c ≠ '\n') (cs : List Char) :
  Token.lineLength (c :: cs) = Token.lineLength cs + 1
  := by
  have hrun : Match.runLength (fun c => c != '\r' && c != '\n') (c :: cs) =
      Match.runLength (fun c => c != '\r' && c != '\n') cs + 1 := by
    simp [Match.runLength, hc]
  simp only [Token.lineLength, hrun, List.drop_succ_cons]
  omega

/-- A line feed behind a text belongs to the line comment that the text ends with, or the comment
ends before it. -/
theorem lineLength_append (cs rest : List Char) :
  Token.lineLength (cs ++ '\n' :: rest) = Token.lineLength cs ∨
    Token.lineLength cs = cs.length ∧
      Token.lineLength (cs ++ '\n' :: rest) = cs.length + 1
  := by
  induction cs with
  | nil => exact .inr ⟨rfl, rfl⟩
  | cons c cs ih =>
      by_cases hc : c ≠ '\r' ∧ c ≠ '\n'
      · rw [List.cons_append, lineLength_cons hc, lineLength_cons hc, List.length_cons]
        omega
      · have hrun : ∀ cs, Match.runLength (fun c => c != '\r' && c != '\n') (c :: cs) = 0 := by
          intro cs
          have hc : c = '\r' ∨ c = '\n' := by tauto
          rcases hc with rfl | rfl <;> rfl
        simp only [List.cons_append, Token.lineLength, hrun, List.drop_zero, List.length_cons]
        rcases (by tauto : c = '\r' ∨ c = '\n') with rfl | rfl
        · rcases cs with _ | ⟨e, cs⟩
          · exact .inr ⟨rfl, rfl⟩
          · by_cases he : e = '\n'
            · subst he
              exact .inl rfl
            · left
              simp [Token.lineEndLength, he]
        · exact .inl rfl

/-! ### The line feed between texts -/

/-- A token is the same where the text goes on, if as many characters are measured. -/
theorem next_append {x : Char} {cs more : List Char} {p : Position}
    (h : next ⟨x :: cs, p⟩ = .ok (t, d))
    (hmeasure : Token.measure x (cs ++ more) = Token.measure x cs) :
  next ⟨x :: (cs ++ more), p⟩ = .ok (t, ⟨d.rest ++ more, d.position⟩)
  := by
  obtain ⟨kind, n, hfound, rfl, rfl⟩ := next_cons_eq_ok_iff.mp h
  have hle := Token.measure_le hfound
  rw [next_of_measure p (hmeasure.trans hfound)]
  simp only [skip, List.take_succ_cons, List.drop_succ_cons, List.take_append_of_le_length hle,
    List.drop_append_of_le_length hle]

/-- Whatever is taken, the text ends where it ends. -/
theorem afterAll_next {c : Cursor} (h : c.next = .ok (t, d)) (more : List Char) :
  d.position.afterAll (d.rest ++ more) = c.position.afterAll (c.rest ++ more)
  := by
  obtain ⟨cs, p⟩ := c
  cases cs with
  | nil =>
      simp only [next, Except.ok.injEq, Prod.mk.injEq] at h
      rw [← h.2]
  | cons x cs =>
      obtain ⟨kind, n, -, -, rfl⟩ := next_cons_eq_ok_iff.mp h
      rw [skip, ← Position.afterAll_append, ← List.append_assoc, List.take_append_drop]

/-- Behind a back-quote that nothing closes stands an unrecognized token. -/
theorem unrecognized_of_backQuote {c : Cursor} {tail : List Char} (hc : c.rest = '\x60' :: tail)
    (htail : Token.backQuotedLength? tail = none) :
  ∃ t ∈ c.visible.1, t.kind = .unrecognized
  := by
  obtain ⟨cs, p⟩ := c
  obtain rfl : cs = '\x60' :: tail := hc
  rw [visible_of_next (List.cons_ne_nil _ tail) (next_of_measure p (Token.measure_openQuoted htail)),
    if_neg (by simp [Kind.isHidden])]
  exact ⟨_, List.mem_cons_self, rfl⟩

theorem skip_length (xs rest : List Char) (p : Position) :
  skip ⟨xs ++ rest, p⟩ xs.length = ⟨rest, p.afterAll xs⟩
  := by
  simp only [skip, List.drop_left, List.take_left]

/-- Before a line feed a token is what it is at the end of the text, unless it is a line comment that
the line feed ends. -/
theorem next_line {x : Char} {cs : List Char} {p : Position} (h : next ⟨x :: cs, p⟩ = .ok (t, d))
    (hx : ¬ isBlank x) (hvalid : t.kind ≠ .unrecognized)
    (hopen : t.kind = .quotedIdentifier → ∀ tail, d.rest = '\x60' :: tail →
      Token.backQuotedLength? tail ≠ none) (rest : List Char) :
  next ⟨x :: (cs ++ '\n' :: rest), p⟩ = .ok (t, ⟨d.rest ++ '\n' :: rest, d.position⟩) ∨
    t.kind = .lineComment ∧ d.rest = [] ∧ ∃ u : Token, u.kind = .lineComment ∧
      next ⟨x :: (cs ++ '\n' :: rest), p⟩ =
        .ok (u, ⟨rest, p.afterAll (x :: cs ++ ['\n'])⟩)
  := by
  cases hfound : Token.measure x cs with
  | error cause => simp [next, hfound] at h
  | ok found =>
      obtain ⟨kind, n⟩ := found
      by_cases hline : x = '-' ∧ cs.head? = some '-'
      · obtain ⟨rfl, hhead⟩ := hline
        obtain ⟨cs, rfl⟩ : ∃ tail, cs = '-' :: tail := by
          cases cs <;> simp_all
        rcases lineLength_append cs rest with hsame | ⟨hall, hmore⟩
        · left
          apply next_append h
          rw [List.cons_append, Token.measure_dashes, Token.measure_dashes, hsame]
        · right
          rw [next_of_measure p (Token.measure_dashes cs), Except.ok.injEq, Prod.mk.injEq] at h
          obtain ⟨rfl, rfl⟩ := h
          have hmeasure := Token.measure_dashes (cs ++ '\n' :: rest)
          rw [hmore] at hmeasure
          have hskip : skip ⟨'-' :: '-' :: (cs ++ '\n' :: rest), p⟩ (1 + (cs.length + 1) + 1) =
              ⟨rest, p.afterAll ('-' :: '-' :: cs ++ ['\n'])⟩ := by
            have hall := skip_length ('-' :: '-' :: cs ++ ['\n']) rest p
            rw [List.append_assoc] at hall
            rw [← hall]
            congr 1
            simp only [List.length_append, List.length_cons, List.length_nil]
            omega
          refine ⟨rfl, ?_, _, ?_, (next_of_measure p hmeasure).trans (by rw [hskip])⟩
          · simp [skip, hall, Nat.add_comm]
          · rfl
      · left
        apply next_append h
        rw [next_of_measure p hfound, Except.ok.injEq, Prod.mk.injEq] at h
        obtain ⟨rfl, rfl⟩ := h
        rw [hfound]
        exact Token.measure_blank rest rfl hfound hx hline hvalid hopen

/-- Behind a text in which all tokens are recognized another one goes on. -/
theorem visible_append {c : Cursor} {q : Position} (hstop : c.visible.2 = .ok q)
    (hvalid : ∀ t ∈ c.visible.1, t.kind ≠ .unrecognized) (rest : List Char) :
  visible ⟨c.rest ++ '\n' :: rest, c.position⟩ =
    (c.visible.1 ++ (visible ⟨rest, c.position.afterAll (c.rest ++ ['\n'])⟩).1,
      (visible ⟨rest, c.position.afterAll (c.rest ++ ['\n'])⟩).2)
  := by
  fun_induction visible c with
  | case1 c hc =>
      rw [hc, List.nil_append, visible_cons_blank rfl]
      rfl
  | case2 => contradiction
  | case3 c hc t d hnext ts stop hvisible hhidden ih =>
      rw [hvisible] at ih
      have hbehind := ih hstop hvalid
      rw [afterAll_next hnext] at hbehind
      obtain ⟨_ | ⟨x, cs⟩, p⟩ := c
      · contradiction
      by_cases hx : isBlank x
      · obtain ⟨-, xs, hxs, hall, hposition⟩ := next_blank hx hnext
        rw [hall, List.append_assoc, visible_blanks hxs, ← hposition, ← hall]
        exact hbehind
      · have hkind : ∀ k : Kind, ¬ k.isHidden → t.kind ≠ k := by
          rintro _ hk rfl
          contradiction
        rcases next_line hnext hx (hkind _ (by decide)) (absurd · (hkind _ (by decide))) rest with
          hnext' | ⟨-, hall, u, hu, hnext'⟩
        · rw [List.cons_append, visible_of_next (List.cons_ne_nil _ _) hnext', if_pos hhidden,
            hbehind]
        · obtain ⟨rfl, -⟩ : ts = [] ∧ stop = .ok d.position := by
            rw [visible_of_rest_eq_nil hall] at hvisible
            simp_all
          rw [List.cons_append, visible_of_next (List.cons_ne_nil _ _) hnext', hu]
          rfl
  | case4 c hc t d hnext ts stop hvisible hhidden ih =>
      rw [hvisible] at ih
      have hbehind := ih hstop fun u hu => hvalid u (List.mem_cons_of_mem t hu)
      rw [afterAll_next hnext] at hbehind
      obtain ⟨_ | ⟨x, cs⟩, p⟩ := c
      · contradiction
      have hx : ¬ isBlank x := by
        intro hx
        rw [(next_blank hx hnext).1] at hhidden
        contradiction
      have hopen : ∀ tail, d.rest = '\x60' :: tail → Token.backQuotedLength? tail ≠ none := by
        intro tail htail hnone
        obtain ⟨u, hu, hkind⟩ := unrecognized_of_backQuote htail hnone
        rw [hvisible] at hu
        exact hvalid u (List.mem_cons_of_mem t hu) hkind
      rcases next_line hnext hx (hvalid t List.mem_cons_self) (fun _ => hopen) rest with
        hnext' | ⟨hkind, -⟩
      · rw [List.cons_append, visible_of_next (List.cons_ne_nil _ _) hnext', if_neg hhidden, hbehind]
        rfl
      · rw [hkind] at hhidden
        contradiction

end Cursor

/-- Behind a text without fault and without unrecognized token stand, further down, the tokens of the
text that follows it in the next line. -/
theorem Tape.ofString_append {text : String} {q : Position} (hstop : (ofString text).stop = .ok q)
    (hvalid : ∀ t ∈ (ofString text).tokens, t.kind ≠ .unrecognized) (more : String) :
  ofString (text ++ "\n" ++ more) =
    ⟨(ofString text).tokens ++ move (.below (text ++ "\n")) (ofString more).tokens,
      move (.below (text ++ "\n")) (ofString more).stop, .point .start⟩
  := by
  have hlist : (text ++ "\n" ++ more).toList = text.toList ++ '\n' :: more.toList := by
    simp
  have hline : Position.start.afterAll (text.toList ++ ['\n']) = .below (text ++ "\n") .start := by
    rw [← Position.afterAll_line, String.toList_append]
    rfl
  have hbelow := Cursor.visible_recounts (c := .ofString more)
    (Position.below_recounts (text ++ "\n") .start)
  have happend := Cursor.visible_append (c := .ofString text) hstop hvalid more.toList
  change Cursor.visible ⟨text.toList ++ '\n' :: more.toList, .start⟩ =
    (_ ++ (Cursor.visible ⟨more.toList, Position.start.afterAll (text.toList ++ ['\n'])⟩).1,
      (Cursor.visible ⟨more.toList, Position.start.afterAll (text.toList ++ ['\n'])⟩).2) at happend
  change Cursor.visible ⟨more.toList, _⟩ = _ at hbelow
  rw [hline, hbelow] at happend
  change Tape.mk (Cursor.ofList (text ++ "\n" ++ more).toList).visible.1
    (Cursor.ofList (text ++ "\n" ++ more).toList).visible.2 (.point .start) = _
  rw [hlist, Cursor.ofList, happend]
  rfl

end SqlFront
