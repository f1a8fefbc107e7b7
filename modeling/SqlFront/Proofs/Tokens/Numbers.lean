import SqlFront.Proofs.Reading.Tape
import SqlFront.Proofs.Tokens.Longest
import SqlFront.Proofs.Tokens.Recount

/-!
# The numbers of a text

The tokens of a text that are numbers are written as the rule for their form says
(`Cursor.numberRule_of_mem_visible`).
-/

namespace SqlFront

open Match

/-! ### Measuring numbers -/

namespace Token

variable {c : Char} {rest : List Char} {kind : Kind} {form : NumberForm} {n : Nat}

theorem not_number_of_measureOperator (h : measureOperator c rest = (kind, n)) :
  kind ≠ .number form
  := by
  rintro rfl
  unfold measureOperator at h
  split at h <;> simp at h

/-- What is measured as a number is an instance of a rule. -/
theorem numberRule_of_measure (h : measure c rest = .ok (.number form, n)) :
  NumberRule form (c :: rest.take n) (rest.drop n)
  := by
  generalize hkind : Kind.number form = kind at h
  cases measured_of_measure h with
  | whitespace | string | quoted | lineComment | unrecognized => contradiction
  | slash measured =>
      subst hkind
      simpa using (of_measureSlash measured).2
  | operator measured => exact (not_number_of_measureOperator measured hkind.symm).elim
  | @word kind m found =>
      subst hkind
      have hrule := wordRule_of_mem found
      cases hrule with
      | number isNumber =>
          cases m with
          | zero => exact (isNumber.ne_nil rfl).elim
          | succ m => exact isNumber

end Token

/-! ### Visible tokens -/

namespace Cursor

/-- What holds of every token that is next somewhere holds of the visible tokens. -/
theorem forall_mem_visible {P : Token → Prop}
    (h : ∀ {c d : Cursor} {t : Token}, c.rest ≠ [] → c.next = .ok (t, d) → P t) (c : Cursor) :
  ∀ t ∈ c.visible.1, P t
  := by
  fun_induction Cursor.visible c with
  | case1 | case2 => simp
  | case3 c hc t d hnext ts stop hvisible hhidden ih =>
      rw [hvisible] at ih
      exact ih
  | case4 c hc t d hnext ts stop hvisible hhidden ih =>
      rw [hvisible] at ih
      exact List.forall_mem_cons.mpr ⟨h hc hnext, ih⟩

/-- The numbers of a text are written as the rules for their forms say. -/
theorem numberRule_of_mem_visible (c : Cursor) :
  ∀ t ∈ c.visible.1, ∀ form, t.kind = .number form → ∃ after, NumberRule form t.text.toList after
  := by
  apply forall_mem_visible
  intro c d t hc hnext form hform
  obtain ⟨_ | ⟨x, rest⟩, p⟩ := c
  · contradiction
  · obtain ⟨kind, n, hmeasure, rfl, -⟩ := next_cons_eq_ok_iff.mp hnext
    obtain rfl := hform
    have hrule := Token.numberRule_of_measure hmeasure
    exact ⟨_, by simpa [Token.textOf] using hrule⟩

end Cursor

end SqlFront
