/-!
# Letters and digits

The classes of letters and digits as ranges of character numbers, and the other case of a letter.
-/

namespace ScoreSynth.Text

variable {c : Char}

theorem isUpper_iff : c.isUpper = true ↔ 65 ≤ c.toNat ∧ c.toNat ≤ 90 := decide_eq_true_iff

theorem isLower_iff : c.isLower = true ↔ 97 ≤ c.toNat ∧ c.toNat ≤ 122 :=
  (Bool.and_eq_true_iff).trans (and_congr decide_eq_true_iff decide_eq_true_iff)

theorem isDigit_iff : c.isDigit = true ↔ 48 ≤ c.toNat ∧ c.toNat ≤ 57 :=
  (Bool.and_eq_true_iff).trans (and_congr decide_eq_true_iff decide_eq_true_iff)

theorem isAlphanum_iff : c.isAlphanum = true ↔
    (c.isUpper = true ∨ c.isLower = true) ∨ c.isDigit = true :=
  Bool.or_eq_true_iff.trans (or_congr_left Bool.or_eq_true_iff)

theorem toLower_of_not_isUpper (h : ¬c.isUpper = true) : c.toLower = c :=
  dif_neg fun hu => h (isUpper_iff.mpr hu)

/-- An upper case letter moves 32 places up. -/
theorem isLower_toLower (h : c.isUpper = true) : c.toLower.isLower = true := by
  have hu := isUpper_iff.mp h
  have hn : c.toLower.toNat = (c.toNat + 32) % 4294967296 := congrArg Char.toNat (dif_pos hu)
  rw [isLower_iff, hn]
  omega

/-- A lower case letter moves 32 places down. -/
theorem toNat_toUpper_of_isLower (h : c.isLower = true) : c.toUpper.toNat = c.toNat - 32 := by
  have hl := isLower_iff.mp h
  have hrange : 'a'.val ≤ c.val ∧ c.val ≤ 'z'.val := hl
  have hdown : ('A'.val - 'a'.val).toNat = 4294967264 := by decide
  unfold Char.toUpper
  rw [dif_pos hrange]
  show (c.val + ('A'.val - 'a'.val)).toNat = c.val.toNat - 32
  rw [UInt32.toNat_add, hdown]
  have hc : c.val.toNat = c.toNat := rfl
  omega

theorem toUpper_of_not_isLower (h : ¬c.isLower = true) : c.toUpper = c :=
  dif_neg fun hl => h (isLower_iff.mpr hl)

end ScoreSynth.Text
