import QScope.Lexing

/-! # Disjoint classes: letters, digits, blanks and gaps exclude each other -/
namespace QScope.CharacterClasses

theorem isNameStart_iff {c : Char} : isNameStart c = true ↔
    (65 ≤ c.toNat ∧ c.toNat ≤ 90) ∨ (97 ≤ c.toNat ∧ c.toNat ≤ 122) := by
  have h : isNameStart c = (decide (65 ≤ c.val ∧ c.val ≤ 90) ||
      decide (97 ≤ c.val) && decide (c.val ≤ 122)) := rfl
  rw [h]
  simp only [UInt32.le_iff_toNat_le,Bool.or_eq_true,Bool.and_eq_true,decide_eq_true_eq]
  rfl

theorem isDigit_toNat {c : Char} (h : c.isDigit = true) : 48 ≤ c.toNat ∧ c.toNat ≤ 57 := by
  simp only [Char.isDigit,UInt32.le_iff_toNat_le,ge_iff_le,Bool.and_eq_true,decide_eq_true_eq] at h
  exact h

theorem isDigit_of_isNameStart {c : Char} (h : isNameStart c = true) : isDigit c = false := by
  have hn := isNameStart_iff.mp h
  have ha : isAscii c = true := by
    simp only [isAscii,decide_eq_true_eq]
    omega
  have hd : c.isDigit = false := Bool.eq_false_iff.mpr fun hd => by
    have := isDigit_toNat hd
    omega
  simp [isDigit,ha,hd]

theorem isAlphanumeric_of_isNameStart {c : Char} (h : isNameStart c = true) :
    isAlphanumeric c = true := by
  simp [isAlphanumeric,isLetter,show c.isAlpha = true from h]

theorem isAlphanumeric_of_isHexDigit {c : Char} (h : isHexDigit c = true) :
    isAlphanumeric c = true := by
  simp only [isHexDigit,Bool.or_eq_true,Bool.and_eq_true,decide_eq_true_eq,Char.le_def,
    UInt32.le_iff_toNat_le] at h
  rcases h with (h | h) | h
  · simp [isAlphanumeric,isNumeral,isDigit,h]
  · change 97 ≤ c.toNat ∧ c.toNat ≤ 102 at h
    exact isAlphanumeric_of_isNameStart (isNameStart_iff.mpr (by omega))
  · change 65 ≤ c.toNat ∧ c.toNat ≤ 70 at h
    exact isAlphanumeric_of_isNameStart (isNameStart_iff.mpr (by omega))

theorem isWordChar_of_isNameStart {c : Char} (h : isNameStart c = true) : isWordChar c = true := by
  simp [isWordChar,isAlphanumeric_of_isNameStart h]

theorem within_disjoint {rs ss : List (Nat × Nat)}
    (h : (rs.all fun r => ss.all fun s => decide (r.2 < s.1) || decide (s.2 < r.1)) = true)
    {c : Char} (hc : within rs c = true) : within ss c = false := by
  simp only [within,List.any_eq_true,Bool.and_eq_true,decide_eq_true_eq] at hc
  obtain ⟨r,hr,hrc⟩ := hc
  simp only [List.all_eq_true,Bool.or_eq_true,decide_eq_true_eq] at h
  simp only [within,List.any_eq_false,Bool.and_eq_true,decide_eq_true_eq]
  intro s hs hsc
  have := h r hr s hs
  omega

/-- The word characters below 128. -/
def asciiWordRanges : List (Nat × Nat) := [(48,57),(65,90),(95,95),(97,122)]

theorem within_of_isWordChar {c : Char} (h : isWordChar c = true) :
    within asciiWordRanges c = true ∨ within CharacterRanges.letters c = true ∨
      within CharacterRanges.digits c = true ∨ within CharacterRanges.numerals c = true := by
  simp only [isWordChar,isAlphanumeric,isLetter,isNumeral,isDigit,Bool.or_eq_true,Bool.and_eq_true,
    beq_iff_eq] at h
  rcases h with ((h | h) | (h | h) | h) | rfl
  · have := isNameStart_iff.mp h
    left
    simp [asciiWordRanges,within]
    omega
  · exact Or.inr (Or.inl h.2)
  · have := isDigit_toNat h
    left
    simp [asciiWordRanges,within]
    omega
  · exact Or.inr (Or.inr (Or.inl h.2))
  · exact Or.inr (Or.inr (Or.inr h.2))
  · exact Or.inl rfl

/-- No letter, numeral or underscore is a blank. -/
theorem isBlank_of_isWordChar {c : Char} (h : isWordChar c = true) : isBlank c = false := by
  rcases within_of_isWordChar h with h | h | h | h
  · exact within_disjoint (by decide) h
  · exact within_disjoint (by decide +kernel) h
  · exact within_disjoint (by decide +kernel) h
  · exact within_disjoint (by decide +kernel) h

end QScope.CharacterClasses

namespace QScope.Lexing
open CharacterClasses

/-- A class of characters that holds no gap. -/
theorem eq_false_of_isGap {p : Char → Bool} (hp : p ' ' = false ∧ p '\t' = false ∧ p '\r' = false ∧
    p '\n' = false) {c : Char} (h : isGap c = true) : p c = false := by
  simp only [isGap,Bool.or_eq_true,beq_iff_eq] at h
  rcases h with ((rfl | rfl) | rfl) | rfl
  · exact hp.1
  · exact hp.2.1
  · exact hp.2.2.1
  · exact hp.2.2.2

theorem isBlank_of_isGap {c : Char} (h : isGap c = true) : isBlank c = true := by
  simp only [isGap,Bool.or_eq_true,beq_iff_eq] at h
  rcases h with ((rfl | rfl) | rfl) | rfl <;> decide

end QScope.Lexing
