/-
Classes of ASCII characters.

Letters and digits are ranges of ASCII codes. So the characters of kebab names and those of the
identifiers in type texts are ASCII characters, and the classes are told apart by their codes.

* **`isAlpha_iff`**, **`isDigit_iff`** — letters and digits by their codes;
* **`isLowerOrDigit_ascii`**, **`isNamePart_ascii`** — characters of names.
-/
import ScreenHooks.Naming
import ScreenHooks.TypeText

namespace ScreenHooks

variable {c : Char}

theorem isDigit_iff : c.isDigit = true ↔ 0x30 ≤ c.toNat ∧ c.toNat ≤ 0x39 := by
  have hdigit : c.isDigit = (decide (48 ≤ c.val) && decide (c.val ≤ 57)) := rfl
  simp only [hdigit, Bool.and_eq_true, decide_eq_true_eq, UInt32.le_iff_toNat_le]
  exact Iff.rfl

theorem isAlpha_iff : c.isAlpha = true ↔
    (0x41 ≤ c.toNat ∧ c.toNat ≤ 0x5A) ∨ (0x61 ≤ c.toNat ∧ c.toNat ≤ 0x7A) := by
  have halpha : c.isAlpha = (decide (65 ≤ c.val ∧ c.val ≤ 90) ||
      (decide (97 ≤ c.val) && decide (c.val ≤ 122))) := rfl
  simp only [halpha, Bool.or_eq_true, Bool.and_eq_true, decide_eq_true_eq,
    UInt32.le_iff_toNat_le]
  exact Iff.rfl

theorem isAlphanum_iff : c.isAlphanum = true ↔ c.isAlpha = true ∨ c.isDigit = true := by
  have halphanum : c.isAlphanum = (c.isAlpha || c.isDigit) := rfl
  rw [halphanum, Bool.or_eq_true]

theorem isAlpha_not_digit (h : c.isAlpha = true) : c.isDigit = false := by
  apply Bool.eq_false_iff.2
  intro hdigit
  rw [isAlpha_iff] at h
  rw [isDigit_iff] at hdigit
  omega

theorem isAlphanum_ascii (h : c.isAlphanum = true) : 0x20 < c.toNat ∧ c.toNat < 0x80 := by
  rw [isAlphanum_iff, isAlpha_iff, isDigit_iff] at h
  omega

theorem isLower_alpha (h : c.isLower = true) : c.isAlpha = true := by
  have halpha : c.isAlpha = (c.isUpper || c.isLower) := rfl
  simp [halpha, h]

theorem isUpper_alpha (h : c.isUpper = true) : c.isAlpha = true := by
  have halpha : c.isAlpha = (c.isUpper || c.isLower) := rfl
  simp [halpha, h]

theorem isLowerOrDigit_ascii (h : isLowerOrDigit c = true) : c.toNat < 0x80 := by
  rw [isLowerOrDigit, Bool.or_eq_true] at h
  exact (isAlphanum_ascii (isAlphanum_iff.2 (h.imp_left isLower_alpha))).2

namespace TypeText

theorem isNamePart_ascii (h : isNamePart c = true) : 0x20 < c.toNat ∧ c.toNat < 0x80 := by
  simp only [isNamePart, Bool.or_eq_true, beq_iff_eq] at h
  rcases h with (h | rfl) | rfl
  · exact isAlphanum_ascii h
  · decide
  · decide

theorem isNameStart_part (h : isNameStart c = true) : isNamePart c = true := by
  simp only [isNameStart, Bool.or_eq_true] at h
  simp only [isNamePart, Bool.or_eq_true, isAlphanum_iff]
  exact h.imp_left fun hstart => hstart.imp_left .inl

theorem isDigit_part (h : c.isDigit = true) : isNamePart c = true ∧ isNameStart c = false := by
  refine ⟨by simp [isNamePart, isAlphanum_iff.2 (.inr h)], Bool.eq_false_iff.2 fun hstart => ?_⟩
  simp only [isNameStart, Bool.or_eq_true, beq_iff_eq] at hstart
  rcases hstart with (hstart | rfl) | rfl
  · rw [isAlpha_not_digit hstart] at h
    cases h
  · cases h
  · cases h

/-- A blank is no part of an identifier. -/
theorem isNamePart_not_blank (h : isNamePart c = true) : Text.isBlank c = false := by
  apply Bool.eq_false_iff.2
  intro hblank
  simp only [isNamePart, Bool.or_eq_true, beq_iff_eq, isAlphanum_iff, isAlpha_iff,
    isDigit_iff] at h
  simp only [Text.isBlank, Bool.or_eq_true, Bool.and_eq_true, decide_eq_true_eq, beq_iff_eq]
    at hblank
  rcases h with (h | rfl) | rfl
  · omega
  · simp at hblank
  · simp at hblank

theorem isBlank_not_part (h : Text.isBlank c = true) : isNamePart c = false := by
  apply Bool.eq_false_iff.2
  intro hpart
  rw [isNamePart_not_blank hpart] at h
  cases h

end TypeText

end ScreenHooks
