/-!
# ASCII letters and digits

What a letter is, and what it becomes in the other case, is a matter of code points: the two cases
of a letter are 32 apart, and capital letters, small letters and digits are three intervals.
-/

namespace ApiAtlas

variable {c : Char}

theorem isUpper_iff : c.isUpper = true ↔ 65 ≤ c.val.toNat ∧ c.val.toNat ≤ 90 := by
  show decide _ = true ↔ _
  rw [decide_eq_true_iff]
  rfl

theorem isLower_iff : c.isLower = true ↔ 97 ≤ c.val.toNat ∧ c.val.toNat ≤ 122 := by
  show (decide _ && decide _) = true ↔ _
  rw [Bool.and_eq_true, decide_eq_true_iff, decide_eq_true_iff]
  rfl

theorem isDigit_iff : c.isDigit = true ↔ 48 ≤ c.val.toNat ∧ c.val.toNat ≤ 57 := by
  show (decide _ && decide _) = true ↔ _
  rw [Bool.and_eq_true, decide_eq_true_iff, decide_eq_true_iff]
  rfl

theorem isAlphanum_of_isLower (h : c.isLower = true) : c.isAlphanum = true := by
  show (c.isUpper || c.isLower || c.isDigit) = true
  simp [h]

theorem isAlphanum_of_isDigit (h : c.isDigit = true) : c.isAlphanum = true := by
  show (c.isUpper || c.isLower || c.isDigit) = true
  simp [h]

theorem toNat_lt_of_isAlphanum (h : c.isAlphanum = true) : c.toNat < 0x80 := by
  have hcases : (c.isUpper || c.isLower || c.isDigit) = true := h
  simp only [Bool.or_eq_true, isUpper_iff, isLower_iff, isDigit_iff] at hcases
  show c.val.toNat < 0x80
  omega

/-- Small letters and digits are no capital letters. -/
theorem isUpper_of_plain (h : c.isLower = true ∨ c.isDigit = true) :
    c.isUpper = false := by
  refine Bool.eq_false_iff.2 fun hupper => ?_
  have hcapital := isUpper_iff.1 hupper
  rcases h with h | h
  · have hsmall := isLower_iff.1 h
    omega
  · have hdigit := isDigit_iff.1 h
    omega

/-! ## The other case -/

/-- A small letter becomes the capital letter 32 places before it. -/
theorem toNat_toUpper (h : c.isLower = true) : c.toUpper.val.toNat + 32 = c.val.toNat := by
  have hsmall := isLower_iff.1 h
  have hshift : (c.val + ('A'.val - 'a'.val)).toNat = c.val.toNat - 32 := by
    have hdistance : ('A'.val - 'a'.val).toNat = 4294967264 := rfl
    rw [UInt32.toNat_add, hdistance]
    omega
  unfold Char.toUpper
  split
  next => rw [hshift]; omega
  next hno => exact absurd hsmall hno

/-- A capital letter becomes the small letter 32 places after it. -/
theorem toNat_toLower (h : c.isUpper = true) : c.toLower.val.toNat = c.val.toNat + 32 := by
  have hcapital := isUpper_iff.1 h
  have hshift : (c.val + ('a'.val - 'A'.val)).toNat = c.val.toNat + 32 := by
    have hdistance : ('a'.val - 'A'.val).toNat = 32 := rfl
    rw [UInt32.toNat_add, hdistance]
    omega
  unfold Char.toLower
  split
  next => exact hshift
  next hno => exact absurd hcapital hno

theorem toUpper_of_not_isLower (h : ¬ c.isLower = true) : c.toUpper = c := by
  unfold Char.toUpper
  split
  next hsmall => exact absurd (isLower_iff.2 hsmall) h
  next => rfl

theorem toLower_of_not_isUpper (h : ¬ c.isUpper = true) : c.toLower = c := by
  unfold Char.toLower
  split
  next hcapital => exact absurd (isUpper_iff.2 hcapital) h
  next => rfl

theorem isUpper_toUpper (h : c.isLower = true) : c.toUpper.isUpper = true := by
  have hshift := toNat_toUpper h
  have hsmall := isLower_iff.1 h
  exact isUpper_iff.2 ⟨by omega, by omega⟩

/-- What is no capital letter comes back from the other case. -/
theorem toLower_toUpper (h : ¬ c.isUpper = true) : c.toUpper.toLower = c := by
  by_cases hlower : c.isLower = true
  · have hup := toNat_toUpper hlower
    have hdown := toNat_toLower (isUpper_toUpper hlower)
    refine Char.ext (UInt32.toNat_inj.1 ?_)
    omega
  · rw [toUpper_of_not_isLower hlower, toLower_of_not_isUpper h]

theorem isLower_toLower (h : c.isUpper = true) : c.toLower.isLower = true := by
  have hshift := toNat_toLower h
  have hcapital := isUpper_iff.1 h
  exact isLower_iff.2 ⟨by omega, by omega⟩

theorem isAlphanum_toUpper (h : c.isAlphanum = true) : c.toUpper.isAlphanum = true := by
  by_cases hlower : c.isLower = true
  · show (c.toUpper.isUpper || c.toUpper.isLower || c.toUpper.isDigit) = true
    simp [isUpper_toUpper hlower]
  · rwa [toUpper_of_not_isLower hlower]

end ApiAtlas
