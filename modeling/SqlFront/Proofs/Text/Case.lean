import Mathlib.Data.Char
import Mathlib.Data.List.Forall2

/-!
# Letters in either case

Two characters agree up to case if they are the same in capitals.  Then they are the same in small
letters too, have as many bytes, and are letters both or the same character.
-/

namespace SqlFront

variable {c d : Char}

theorem toNat_toUpper (c : Char) :
  c.toUpper.toNat = if 97 ≤ c.toNat ∧ c.toNat ≤ 122 then c.toNat - 32 else c.toNat
  := by
  by_cases h : 97 ≤ c.toNat ∧ c.toNat ≤ 122
  · have hval : 'a'.val ≤ c.val ∧ c.val ≤ 'z'.val := h
    obtain ⟨hvalid, hupper⟩ : ∃ h, c.toUpper = ⟨c.val + ('A'.val - 'a'.val), h⟩ := ⟨_, dif_pos hval⟩
    rw [hupper, if_pos h]
    have hadd : (c.val + ('A'.val - 'a'.val)).toNat = (c.toNat + 4294967264) % 4294967296 := by
      rw [UInt32.toNat_add]
      rfl
    change (c.val + ('A'.val - 'a'.val)).toNat = _
    omega
  · have hval : ¬ ('a'.val ≤ c.val ∧ c.val ≤ 'z'.val) := h
    have hupper : c.toUpper = c := dif_neg hval
    rw [hupper, if_neg h]

theorem toNat_toLower (c : Char) :
  c.toLower.toNat = if 65 ≤ c.toNat ∧ c.toNat ≤ 90 then c.toNat + 32 else c.toNat
  := by
  by_cases h : 65 ≤ c.toNat ∧ c.toNat ≤ 90
  · have hval : c.val ≥ 'A'.val ∧ c.val ≤ 'Z'.val := h
    obtain ⟨hvalid, hlower⟩ : ∃ h, c.toLower = ⟨c.val + ('a'.val - 'A'.val), h⟩ := ⟨_, dif_pos hval⟩
    rw [hlower, if_pos h]
    have hadd : (c.val + ('a'.val - 'A'.val)).toNat = (c.toNat + 32) % 4294967296 := by
      rw [UInt32.toNat_add]
      rfl
    change (c.val + ('a'.val - 'A'.val)).toNat = _
    omega
  · have hval : ¬ (c.val ≥ 'A'.val ∧ c.val ≤ 'Z'.val) := h
    have hlower : c.toLower = c := dif_neg hval
    rw [hlower, if_neg h]

/-- Characters that agree in capitals agree in small letters. -/
theorem toLower_eq_iff :
  c.toLower = d.toLower ↔ c.toUpper = d.toUpper
  := by
  rw [← Char.toNat_inj, ← Char.toNat_inj, toNat_toLower, toNat_toLower, toNat_toUpper, toNat_toUpper]
  split <;> split <;> split <;> split <;> omega

theorem isAlpha_iff :
  c.isAlpha = true ↔ 65 ≤ c.toNat ∧ c.toNat ≤ 90 ∨ 97 ≤ c.toNat ∧ c.toNat ≤ 122
  := by
  have hupper : c.isUpper = true ↔ 65 ≤ c.toNat ∧ c.toNat ≤ 90 := decide_eq_true_iff
  have hlower : c.isLower = true ↔ 97 ≤ c.toNat ∧ c.toNat ≤ 122 := by
    apply (Bool.and_eq_true_iff ..).trans
    apply and_congr decide_eq_true_iff decide_eq_true_iff
  exact Bool.or_eq_true_iff.trans (or_congr hupper hlower)

/-- Characters that agree up to case are the same, or both letters. -/
theorem eq_or_isAlpha_of_toUpper_eq (h : c.toUpper = d.toUpper) :
  c = d ∨ c.isAlpha = true ∧ d.isAlpha = true
  := by
  rw [← Char.toNat_inj, toNat_toUpper, toNat_toUpper] at h
  rw [← Char.toNat_inj, isAlpha_iff, isAlpha_iff]
  split at h <;> split at h <;> omega

/-- Letters have one byte. -/
theorem utf8Size_of_isAlpha (h : c.isAlpha = true) :
  c.utf8Size = 1
  := by
  rw [isAlpha_iff] at h
  have hle : c.val ≤ 127 := by
    change c.toNat ≤ 127
    omega
  exact if_pos hle

/-- Characters that agree up to case have as many bytes. -/
theorem utf8Size_of_toUpper_eq (h : c.toUpper = d.toUpper) :
  c.utf8Size = d.utf8Size
  := by
  rcases eq_or_isAlpha_of_toUpper_eq h with rfl | ⟨hc, hd⟩
  · rfl
  · rw [utf8Size_of_isAlpha hc, utf8Size_of_isAlpha hd]

/-! ### Capitals -/

variable {x : Char}

theorem toUpper_toUpper (c : Char) :
  c.toUpper.toUpper = c.toUpper
  := by
  rw [← Char.toNat_inj, toNat_toUpper c.toUpper, toNat_toUpper]
  apply if_neg
  split <;> omega

theorem isAlpha_toUpper (c : Char) :
  c.toUpper.isAlpha = c.isAlpha
  := by
  rw [Bool.eq_iff_iff, isAlpha_iff, isAlpha_iff, toNat_toUpper]
  split <;> omega

/-- Characters that are not letters are the same in capitals. -/
theorem toUpper_of_not_isAlpha (hc : c.isAlpha = false) :
  c.toUpper = c
  := by
  rcases eq_or_isAlpha_of_toUpper_eq (toUpper_toUpper c) with heq | ⟨-, halpha⟩
  · exact heq
  · rw [hc] at halpha
    contradiction

theorem toUpper_eq_iff (hx : x.isAlpha = false) :
  c.toUpper = x ↔ c = x
  := by
  constructor
  · intro h
    have hc : c.isAlpha = false := by rw [← isAlpha_toUpper, h, hx]
    rwa [toUpper_of_not_isAlpha hc] at h
  · rintro rfl
    exact toUpper_of_not_isAlpha hx

theorem toUpper_ne (hx : x.isAlpha = false) (hc : c ≠ x) :
  c.toUpper ≠ x
  := (toUpper_eq_iff hx).not.mpr hc

/-- What does not tell letters apart does not tell letters from their capitals. -/
theorem congr_toUpper {β : Type} {f : Char → β}
    (h : ∀ {c d : Char}, c.isAlpha = true → d.isAlpha = true → f c = f d) (c : Char) :
  f c.toUpper = f c
  := by
  rcases eq_or_isAlpha_of_toUpper_eq (toUpper_toUpper c) with heq | ⟨hupper, halpha⟩
  · rw [heq]
  · exact h hupper halpha

/-- Letters are not among the other characters. -/
theorem ne_of_isAlpha (hc : c.isAlpha = true) (hx : x.isAlpha = false) :
  c ≠ x
  := by
  rintro rfl
  rw [hc] at hx
  contradiction

/-! ### Texts -/

variable {s t : String}

theorem toList_toUpper (s : String) :
  s.toUpper.toList = s.toList.map Char.toUpper
  := String.toList_map

theorem toList_toLower (s : String) :
  s.toLower.toList = s.toList.map Char.toLower
  := String.toList_map

theorem toUpper_append (s t : String) :
  (s ++ t).toUpper = s.toUpper ++ t.toUpper
  := by
  rw [← String.toList_inj]
  simp [toList_toUpper]

/-- A text in capitals stays as it is in capitals. -/
theorem toUpper_idem (s : String) :
  s.toUpper.toUpper = s.toUpper
  := by
  rw [← String.toList_inj, toList_toUpper, toList_toUpper, List.map_map,
    show Char.toUpper ∘ Char.toUpper = Char.toUpper from funext toUpper_toUpper]

/-- Texts agree in capitals if their characters do, one by one. -/
theorem toUpper_eq_iff_forall₂ :
  s.toUpper = t.toUpper ↔ List.Forall₂ (fun c d => c.toUpper = d.toUpper) s.toList t.toList
  := by
  rw [← String.toList_inj, toList_toUpper, toList_toUpper, ← List.forall₂_eq_eq_eq,
    List.forall₂_map_left_iff, List.forall₂_map_right_iff]

theorem toLower_eq_iff_forall₂ :
  s.toLower = t.toLower ↔ List.Forall₂ (fun c d => c.toUpper = d.toUpper) s.toList t.toList
  := by
  rw [← String.toList_inj, toList_toLower, toList_toLower, ← List.forall₂_eq_eq_eq,
    List.forall₂_map_left_iff, List.forall₂_map_right_iff]
  simp only [toLower_eq_iff]

/-- Texts that agree in capitals agree in small letters. -/
theorem toLower_eq_iff_toUpper :
  s.toLower = t.toLower ↔ s.toUpper = t.toUpper
  := by
  rw [toUpper_eq_iff_forall₂, toLower_eq_iff_forall₂]

end SqlFront
