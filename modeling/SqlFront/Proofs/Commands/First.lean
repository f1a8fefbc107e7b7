import Mathlib.Data.List.Forall2
import Mathlib.Data.Nat.Find

/-!
# First places

A list is refused because of its first entry that is at fault.  `FirstAt P i a` says that something
holds at the place `i` and at no place before it.
-/

namespace SqlFront

section

variable {α : Type} {P : Nat → α → Prop} {a : α} {i : Nat}

/-- The property holds of `a` at the place `i`, and of nothing at the places before it. -/
def FirstAt (P : Nat → α → Prop) (i : Nat) (a : α) : Prop := P i a ∧ ∀ j < i, ∀ b, ¬ P j b

/-- Where something holds somewhere, it holds somewhere for the first time. -/
theorem exists_firstAt (h : P i a) :
  ∃ j b, FirstAt P j b
  := by
  classical
  have hsome : ∃ j, ∃ b, P j b := ⟨i, a, h⟩
  obtain ⟨b, hb⟩ := Nat.find_spec hsome
  exact ⟨Nat.find hsome, b, hb, fun j hj c hc => Nat.find_min hsome hj ⟨c, hc⟩⟩

theorem firstAt_zero :
  FirstAt P 0 a ↔ P 0 a
  := by
  simp [FirstAt]

theorem firstAt_succ :
  FirstAt P (i + 1) a ↔ (∀ b, ¬ P 0 b) ∧ FirstAt (fun j => P (j + 1)) i a
  := by
  constructor
  · rintro ⟨ha, hbefore⟩
    exact ⟨hbefore 0 (Nat.succ_pos i), ha, fun j hj => hbefore (j + 1) (Nat.succ_lt_succ hj)⟩
  · rintro ⟨hzero, ha, hbefore⟩
    refine ⟨ha, fun j hj => ?_⟩
    cases j with
    | zero => exact hzero
    | succ j => exact hbefore j (Nat.lt_of_succ_lt_succ hj)

/-- The first place is the beginning, or it is found behind the beginning. -/
theorem exists_firstAt_iff :
  (∃ i, FirstAt P i a) ↔ P 0 a ∨ (∀ b, ¬ P 0 b) ∧ ∃ i, FirstAt (fun j => P (j + 1)) i a
  := by
  constructor
  · rintro ⟨_ | i, hfirst⟩
    · left
      apply firstAt_zero.mp hfirst
    · right
      obtain ⟨hzero, hfirst⟩ := firstAt_succ.mp hfirst
      exact ⟨hzero, i, hfirst⟩
  · rintro (hfirst | ⟨hzero, i, hfirst⟩)
    · exact ⟨0, firstAt_zero.mpr hfirst⟩
    · exact ⟨i + 1, firstAt_succ.mpr ⟨hzero, hfirst⟩⟩

end

/-! ### Lists of results -/

section

variable {α β ε : Type} {f : α → Except ε β} {as : List α}

theorem mapM_cons_eq (a : α) (as : List α) :
  (a :: as).mapM f = match f a, as.mapM f with
    | .error e, _ => .error e
    | .ok _, .error e => .error e
    | .ok b, .ok bs => .ok (b :: bs)
  := by
  rw [List.mapM_cons]
  cases f a with
  | error e => rfl
  | ok b => cases as.mapM f <;> rfl

theorem mapM_eq_ok {bs : List β} :
  as.mapM f = .ok bs ↔ List.Forall₂ (fun a b => f a = .ok b) as bs
  := by
  induction as generalizing bs with
  | nil => cases bs <;> simp [pure, Except.pure]
  | cons a as ih =>
      rw [mapM_cons_eq, List.forall₂_cons_left_iff]
      cases ha : f a with
      | error e => simp
      | ok b =>
          cases has : as.mapM f with
          | error e => simp [← ih, has]
          | ok cs => simp [← ih, has, eq_comm]

/-- A list of results has the fault of its first entry that has one. -/
theorem mapM_eq_error {e : ε} :
  as.mapM f = .error e ↔ ∃ i, FirstAt (fun i e => ∃ a, as[i]? = some a ∧ f a = .error e) i e
  := by
  induction as with
  | nil => simp [pure, Except.pure, FirstAt]
  | cons a as ih =>
      rw [mapM_cons_eq, exists_firstAt_iff]
      cases ha : f a with
      | error e' => simp [ha]
      | ok b =>
          simp only [List.getElem?_cons_zero, List.getElem?_cons_succ, Option.some.injEq,
            exists_eq_left', ha, reduceCtorEq, not_false_eq_true, implies_true, true_and, false_or]
          rw [← ih]
          cases as.mapM f <;> simp

end

end SqlFront
