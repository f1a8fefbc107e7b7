import SqlFront.Proofs.Reading.Follows
import SqlFront.Proofs.Tokens.Append
import SqlFront.Proofs.Tokens.Blank
import SqlFront.Proofs.Tokens.Recount
import SqlFront.Proofs.Tokens.Words

/-!
# Words between blanks

A word that is one token when it stands alone is the same token when a blank follows it: no rule
for tokens looks beyond the first character that it does not take.  So a text of words with a blank
between each two has just the tokens of its words (`Cursor.visible_spaced`).
-/

namespace SqlFront

namespace Token

/-! ### Words -/

/-- The token that a word is, at the start of a text. -/
def ofWord (word : String) : Token :=
  let kind := (kindOf? word).getD .unrecognized
  ⟨kind, textOf kind word.toList, .point .start⟩

theorem kindOf?_eq_some {word : String} {kind : Kind} (h : kindOf? word = some kind) :
  ∃ c cs, word.toList = c :: cs ∧ measure c cs = .ok (kind, cs.length) ∧ kind.isHidden = false ∧
    kind ≠ .unrecognized
  := by
  unfold kindOf? at h
  split at h
  · contradiction
  · next c cs hword =>
      split at h
      · next kind' n hmeasure =>
          simp only [Option.ite_none_right_eq_some, Option.some.injEq] at h
          obtain ⟨⟨rfl, hhidden, hvalid⟩, rfl⟩ := h
          exact ⟨c, cs, hword, hmeasure, by simpa using hhidden, hvalid⟩
      · contradiction

theorem kind_ofWord {word : String} {kind : Kind} (h : kindOf? word = some kind) :
  (ofWord word).kind = kind
  := by
  simp [ofWord, h]

/-! ### Pieces with blanks between them -/

/-- What stands behind a piece: nothing, or a blank and the other pieces. -/
def behind (pieces : List String) : List Char :=
  if pieces = [] then [] else ' ' :: (" ".intercalate pieces).toList

theorem behind_eq (pieces : List String) :
  behind pieces = [] ∨ ∃ rest, behind pieces = ' ' :: rest
  := by
  cases pieces <;> simp [behind]

theorem toList_intercalate_cons (piece : String) (pieces : List String) :
  (" ".intercalate (piece :: pieces)).toList = piece.toList ++ behind pieces
  := by
  cases pieces <;> simp [String.intercalate_cons_cons, behind]

end Token

/-! ### Texts of words -/

namespace Cursor

open Token

/-- The blank before the other pieces is not visible. -/
theorem visible_behind (pieces : List String) (p : Position) :
  ∃ q, visible ⟨behind pieces, p⟩ = visible ⟨(" ".intercalate pieces).toList, q⟩
  := by
  cases pieces with
  | nil => exact ⟨p, by simp [behind]⟩
  | cons piece pieces => exact ⟨_, visible_cons_blank rfl _ p⟩

/-- The next token is the word that the text begins with. -/
theorem next_word {word : String} {kind : Kind} (rest : List Char) (p : Position)
    (h : kindOf? word = some kind) (hrest : rest = [] ∨ ∃ rest', rest = ' ' :: rest') :
  ∃ t q, next ⟨word.toList ++ rest, p⟩ = .ok (t, ⟨rest, q⟩) ∧ forget t = ofWord word ∧
    t.kind.isHidden = false
  := by
  obtain ⟨c, cs, hword, hmeasure, hhidden, hvalid⟩ := kindOf?_eq_some h
  have hmeasure' : measure c (cs ++ rest) = .ok (kind, cs.length) := by
    rcases hrest with rfl | ⟨rest, rfl⟩
    · rwa [List.append_nil]
    · exact measure_whole_blank rest rfl hmeasure hhidden hvalid
  rw [hword]
  refine ⟨_, _, next_of_measure_append p hmeasure', ?_, hhidden⟩
  simp only [ofWord, h, hword]
  rfl

/-- A text of words with a blank between each two consists of the tokens of the words. -/
theorem visible_spaced {words : List String} (hwords : ∀ w ∈ words, (kindOf? w).isSome)
    (p : Position) :
  forget (visible ⟨(" ".intercalate words).toList, p⟩).1 = words.map ofWord ∧
    forget (visible ⟨(" ".intercalate words).toList, p⟩).2 = .ok .start
  := by
  induction words generalizing p with
  | nil =>
      rw [visible_of_rest_eq_nil (by simp)]
      exact ⟨rfl, rfl⟩
  | cons w words ih =>
      obtain ⟨kind, hkind⟩ := Option.isSome_iff_exists.mp (hwords w (by simp))
      have hne : w.toList ++ behind words ≠ [] := by
        obtain ⟨c, cs, hw, -⟩ := kindOf?_eq_some hkind
        simp [hw]
      obtain ⟨t, q, hnext, ht, hvisible⟩ := next_word _ p hkind (behind_eq words)
      obtain ⟨r, hbehind⟩ := visible_behind words q
      obtain ⟨ihtokens, ihstop⟩ := ih (fun v hv => hwords v (by simp [hv])) r
      rw [toList_intercalate_cons, visible_of_next hne hnext, hvisible, if_neg Bool.false_ne_true,
        hbehind]
      constructor
      · rw [List.map_cons, ← ihtokens, ← ht]
        rfl
      · exact ihstop

end Cursor

end SqlFront
