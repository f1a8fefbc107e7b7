import SqlFront.Proofs.Tokens.Numbers
import SqlFront.Proofs.Tokens.Points

/-!
# Tokens that stand alone

A token stays what it is where nothing stands behind it (`Token.measure_alone`), whatever
stood there before: only numbers with a point depend on what follows them, and no other rule finds a
token where one of them does.  So a visible token is the word that it is written as
(`Token.exists_word_of_next`), and the visible tokens of a text are those of some words
(`Cursor.exists_words`).
-/

namespace SqlFront

namespace Match

variable {cs w more after : List Char} {kind kind' : Kind}

/-- What a rule finds where nothing follows, it finds wherever some rule finds the same characters. -/
theorem WordRule.of_alone (h : WordRule kind w after) (halone : WordRule kind' w []) :
  WordRule kind' w after
  := by
  rcases h.number_or with ⟨form, -, hnumber⟩ | rfl | hjob
  · apply halone.congr
    intro hpoint _
    obtain ⟨_, _, _, _, _, hends⟩ := hnumber.exists_pointed hpoint
    exact hends
  · rcases halone.of_point with ⟨form, -, hnumber⟩ | ⟨rfl, -⟩
    · obtain ⟨⟨d, u, hnil, -⟩, -⟩ := hnumber.places
      contradiction
    · exact .dot
  · apply halone.congr
    intro hpoint
    have := hjob '.' hpoint
    contradiction

/-- The longest match of a text is the longest one of its characters alone. -/
theorem longest?_alone {c : Char} (hc : isWordChar c ∨ c = '.')
    (h : longest? (wordMatches (c :: cs ++ more)) = some (kind, (c :: cs).length)) :
  longest? (wordMatches (c :: cs)) = some (kind, (c :: cs).length)
  := by
  obtain ⟨⟨kind', n⟩, hbest, -⟩ := exists_longest? hc cs
  generalize c :: cs = w at h hbest ⊢
  have hmem := longest?_mem hbest
  have hlength : (w.take n).length = n := List.length_take_of_le (of_mem_wordMatches hmem).2
  have hrule : WordRule kind w more := by
    simpa using wordRule_of_mem (longest?_mem h)
  have hrule' := wordRule_of_mem hmem
  have halone : WordRule kind w [] := hrule.congr fun _ _ => rfl
  -- alone, the characters are matched by no rule that is as long and earlier
  have hbest' : longest? (wordMatches w) = some (kind', (w.take n).length) := by
    rwa [hlength]
  rcases lt_or_eq_of_wordRule hbest' (List.take_append_drop n w).symm hrule'
    (List.append_nil w).symm halone with hlt | ⟨hw, hrank⟩
  · have := (of_mem_wordMatches hmem).2
    omega
  · obtain rfl : n = w.length := by
      rw [← hlength, ← hw]
    rw [List.take_length, List.drop_length] at hrule'
    rw [hbest]
    rcases lt_or_eq_of_wordRule h rfl hrule rfl (hrule.of_alone hrule') with hlt | ⟨-, hrank'⟩
    · exact absurd hlt (Nat.lt_irrefl _)
    · rcases hrank with rfl | hlt
      · rfl
      · rcases hrank' with rfl | hlt'
        · rfl
        · exact absurd hlt' (Nat.lt_asymm hlt)

end Match

namespace Token

variable {cs more : List Char} {c : Char} {kind : Kind} {n : Nat}

/-- A slash that begins no comment is a token of its own. -/
theorem eq_zero_of_measureSlash (h : measureSlash cs = .ok (.slash, n)) :
  n = 0
  := by
  cases measuredSlash_of_measureSlash h
  rfl

/-- A token stays what it is where nothing stands behind it. -/
theorem measure_alone (h : measure c (cs ++ more) = .ok (kind, cs.length)) :
  measure c cs = .ok (kind, cs.length)
  := by
  apply measure_cut_of h (Nat.le_refl _)
  · intro hslash
    apply measureSlash_cut hslash (Nat.le_refl _)
    -- no token at a slash has just the star behind it, so no hint is cut off
    rintro rfl hplus
    obtain ⟨more, rfl⟩ := List.head?_eq_some_iff.mp hplus
    exact absurd (Prod.mk.inj (Except.ok.inj hslash)).2 (by decide)
  · exact Match.longest?_alone

/-- A visible token is the word that it is written as. -/
theorem exists_word_of_next {c d : Cursor} {t : Token} (hc : c.rest ≠ [])
    (h : c.next = .ok (t, d)) (hhidden : t.kind.isHidden = false) (hvalid : t.kind ≠ .unrecognized) :
  ∃ w, kindOf? w = some t.kind ∧ forget t = ofWord w
  := by
  obtain ⟨_ | ⟨x, cs⟩, p⟩ := c
  · contradiction
  · obtain ⟨kind, n, hfound, rfl, -⟩ := Cursor.next_cons_eq_ok_iff.mp h
    have hlength : (cs.take n).length = n := List.length_take_of_le (measure_le hfound)
    have hall : measure x (cs.take n ++ cs.drop n) = .ok (kind, (cs.take n).length) := by
      rw [List.take_append_drop, hlength, hfound]
    have halone := measure_alone hall
    have hkind : kindOf? (String.ofList (x :: cs.take n)) = some kind := by
      simp [kindOf?, halone, hlength, hvalid, show kind.isHidden = false from hhidden]
    refine ⟨_, hkind, ?_⟩
    rw [ofWord, hkind, String.toList_ofList]
    rfl

end Token

namespace Cursor

open Token

variable {c : Cursor} {t : Token}

/-- The names without back-quotes among the visible tokens of a text are the words that they are
written as. -/
theorem kindOf?_of_mem_visible (c : Cursor) :
  ∀ t ∈ c.visible.1, t.kind.isName → t.kind ≠ .quotedIdentifier → kindOf? t.text = some t.kind
  := by
  apply forall_mem_visible
  intro c d t hc hnext hname hquoted
  have hkind : t.kind.isHidden = false ∧ t.kind ≠ .unrecognized := by
    generalize t.kind = kind at hname
    constructor
    · cases kind <;> first | rfl | contradiction
    · rintro rfl
      contradiction
  obtain ⟨w, hw, hforget⟩ := exists_word_of_next hc hnext hkind.1 hkind.2
  have htext : t.text = w := by
    rw [← text_ofWord hw hquoted, ← hforget]
    rfl
  rwa [htext]

/-- The visible tokens of a text without unrecognized tokens are those of some words. -/
theorem exists_words (hvalid : ∀ t ∈ c.visible.1, t.kind ≠ .unrecognized) :
  ∃ ws, AreTokens ws ∧ forget c.visible.1 = ws.map ofWord
  := by
  fun_induction visible c with
  | case1 | case2 => exact ⟨[], areTokens_nil, rfl⟩
  | case3 c hc t d hnext ts stop hvisible hhidden ih =>
      rw [hvisible] at ih
      exact ih hvalid
  | case4 c hc t d hnext ts stop hvisible hhidden ih =>
      rw [hvisible] at ih
      rw [List.forall_mem_cons] at hvalid
      obtain ⟨ws, hws, hforget⟩ := ih hvalid.2
      obtain ⟨w, hw, ht⟩ := exists_word_of_next hc hnext (by simpa using hhidden) hvalid.1
      refine ⟨w :: ws, areTokens_cons.mpr ⟨by rw [hw]; rfl, hws⟩, ?_⟩
      rw [List.map_cons, ← ht, ← hforget]
      rfl

end Cursor

end SqlFront
