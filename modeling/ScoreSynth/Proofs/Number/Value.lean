import Mathlib.Algebra.Order.Field.Power
import Mathlib.Algebra.Order.Floor.Semifield
import Mathlib.Data.Rat.Floor
import Mathlib.Tactic.FieldSimp
import Mathlib.Tactic.Linarith
import Mathlib.Tactic.Positivity
import ScoreSynth.Number.Binary

/-!
# Values of binary numbers

The rational value of a binary number, and how far rounding takes it: to the nearest of a width the
error is at most half a unit, and the unit is as fine as the width allows.
-/

namespace ScoreSynth.Number

theorem twoTo_eq (n : Nat) : twoTo n = 2 ^ n := rfl

theorem tenTo_eq (n : Nat) : tenTo n = 10 ^ n := rfl

theorem cast_div_zpow_natAbs {b : Nat} {e : Int} (he : 0 ≤ e) :
    ((b ^ e.natAbs : Nat) : ℚ) = (b : ℚ) ^ e := by
  obtain ⟨n, rfl⟩ := Int.eq_ofNat_of_zero_le he
  simp

theorem cast_zpow_neg_natAbs {b : Nat} {e : Int} (he : e < 0) :
    ((b ^ e.natAbs : Nat) : ℚ) = (b : ℚ) ^ (-e) := by
  obtain ⟨n, hn⟩ := Int.eq_ofNat_of_zero_le (show 0 ≤ -e by omega)
  have : e.natAbs = n := by omega
  simp [this, hn]

/-! ## Rounding to a natural -/

theorem roundEven_error (num : Nat) {den : Nat} (hd : 0 < den) :
    |(roundEven num den : ℚ) - num / den| ≤ 1 / 2 := by
  have hdq : (0 : ℚ) < den := by exact_mod_cast hd
  have hm := Nat.mod_lt num hd
  have hq : (num : ℚ) = den * (num / den : Nat) + (num % den : Nat) := by
    exact_mod_cast (Nat.div_add_mod num den).symm
  have hv : (num : ℚ) / den = (num / den : Nat) + (num % den : Nat) / den := by
    rw [hq]; field_simp
  rw [hv, abs_le]
  -- the remainder decides on which side the nearest natural lies
  have hlow : 2 * (num % den) ≤ den → ((num % den : Nat) : ℚ) / den ≤ 1 / 2 := fun h => by
    rw [div_le_div_iff₀ hdq two_pos]; exact_mod_cast by omega
  have hhigh : den ≤ 2 * (num % den) → 1 / 2 ≤ ((num % den : Nat) : ℚ) / den := fun h => by
    rw [div_le_div_iff₀ two_pos hdq]; exact_mod_cast by omega
  have hnn : (0 : ℚ) ≤ ((num % den : Nat) : ℚ) / den := by positivity
  have hlt : ((num % den : Nat) : ℚ) / den ≤ 1 := by
    rw [div_le_one hdq]; exact_mod_cast hm.le
  unfold roundEven
  simp only
  split
  · have := hlow (by omega)
    constructor <;> linarith
  · split
    · have := hhigh (by omega)
      push_cast
      constructor <;> linarith
    · have h1 := hlow (by omega)
      have h2 := hhigh (by omega)
      rcases Nat.mod_two_eq_zero_or_one (num / den) with h | h <;> rw [h] <;> push_cast <;>
        constructor <;> linarith

theorem roundUp_eq_floor (num : Nat) {den : Nat} (hd : 0 < den) :
    roundUp num den = ⌊(num : ℚ) / den + 1 / 2⌋₊ := by
  have hdq : (den : ℚ) ≠ 0 := by exact_mod_cast hd.ne'
  have h : (num : ℚ) / den + 1 / 2 = ((2 * num + den : Nat) : ℚ) / (2 * den : Nat) := by
    push_cast; field_simp
  rw [h, Nat.floor_div_eq_div]
  rfl

namespace Binary

def value (x : Binary) : ℚ := x.significand * 2 ^ x.exponent

theorem ratio_pos (x : Binary) : 0 < x.ratio.2 := by
  unfold ratio
  split
  · exact Nat.two_pow_pos _
  · exact Nat.one_pos

theorem ratio_value (x : Binary) : (x.ratio.1 : ℚ) / x.ratio.2 = x.value := by
  unfold ratio value
  split
  · rename_i h
    simp only [twoTo_eq, cast_zpow_neg_natAbs h, zpow_neg, Nat.cast_ofNat, div_inv_eq_mul]
  · rename_i h
    simp only [twoTo_eq, Nat.cast_mul, cast_div_zpow_natAbs (not_lt.mp h), Nat.cast_ofNat,
      Nat.cast_one, div_one]

theorem round_eq_floor (x : Binary) : x.round = ⌊x.value + 1 / 2⌋₊ := by
  rw [round, roundUp_eq_floor _ x.ratio_pos, x.ratio_value]

theorem scaled_pos (num : Nat) {den : Nat} (e : Int) (hd : 0 < den) : 0 < (scaled num den e).2 := by
  unfold scaled
  split
  · exact hd
  · exact Nat.mul_pos hd (Nat.two_pow_pos _)

theorem scaled_value (num den : Nat) (e : Int) :
    ((scaled num den e).1 : ℚ) / (scaled num den e).2 = num / den / 2 ^ e := by
  unfold scaled
  split
  · rename_i h
    simp only [twoTo_eq, Nat.cast_mul, cast_zpow_neg_natAbs h, zpow_neg, Nat.cast_ofNat]
    field_simp
  · rename_i h
    simp only [twoTo_eq, Nat.cast_mul, cast_div_zpow_natAbs (not_lt.mp h), Nat.cast_ofNat]
    field_simp

/-! ## Rounding to a width -/

theorem two_zpow_pos (e : Int) : (0 : ℚ) < 2 ^ e := zpow_pos two_pos e

theorem log2_bounds {n : Nat} (hn : 0 < n) :
    (2 : ℚ) ^ (n.log2 : Int) ≤ n ∧ (n : ℚ) < 2 ^ ((n.log2 : Int) + 1) := by
  have hl := Nat.log2_self_le hn.ne'
  have hu := Nat.lt_log2_self (n := n)
  constructor
  · rw [zpow_natCast]; exact_mod_cast hl
  · rw [← Nat.cast_one, ← Nat.cast_add, zpow_natCast]; exact_mod_cast hu

theorem log2_div_bounds {num den : Nat} (hn : 0 < num) (hd : 0 < den) :
    (2 : ℚ) ^ ((num.log2 : Int) - den.log2 - 1) ≤ num / den ∧
      (num : ℚ) / den < 2 ^ ((num.log2 : Int) - den.log2 + 1) := by
  obtain ⟨hnl, hnu⟩ := log2_bounds hn
  obtain ⟨hdl, hdu⟩ := log2_bounds hd
  have hdq : (0 : ℚ) < den := by exact_mod_cast hd
  constructor
  · rw [le_div_iff₀ hdq]
    calc (2 : ℚ) ^ ((num.log2 : Int) - den.log2 - 1) * den
        ≤ 2 ^ ((num.log2 : Int) - den.log2 - 1) * 2 ^ ((den.log2 : Int) + 1) := by gcongr
      _ = 2 ^ (num.log2 : Int) := by rw [← zpow_add₀ two_ne_zero]; congr 1; ring
      _ ≤ num := hnl
  · rw [div_lt_iff₀ hdq]
    calc (num : ℚ) < 2 ^ ((num.log2 : Int) + 1) := hnu
      _ = 2 ^ ((num.log2 : Int) - den.log2 + 1) * 2 ^ (den.log2 : Int) := by
        rw [← zpow_add₀ two_ne_zero]; congr 1; ring
      _ ≤ 2 ^ ((num.log2 : Int) - den.log2 + 1) * den := by gcongr

theorem scaled_div_lt_iff (num : Nat) {den : Nat} (hd : 0 < den) (e : Int) (k : Nat) :
    (scaled num den e).1 / (scaled num den e).2 < k ↔ (num : ℚ) / den < k * 2 ^ e := by
  have hs := scaled_pos num e hd
  have hsq : (0 : ℚ) < (scaled num den e).2 := by exact_mod_cast hs
  rw [Nat.div_lt_iff_lt_mul hs, ← div_lt_iff₀ (two_zpow_pos e), ← scaled_value, div_lt_iff₀ hsq]
  exact_mod_cast Iff.rfl

theorem lt_two_zpow_unitExponent {num den : Nat} (w : Width) (hn : 0 < num) (hd : 0 < den) :
    (num : ℚ) / den < 2 ^ w.bits * 2 ^ unitExponent w num den := by
  have hu := (log2_div_bounds hn hd).2
  have hlt := scaled_div_lt_iff num hd
    (max w.least ((num.log2 : Int) - den.log2 - w.bits)) (twoTo w.bits)
  unfold unitExponent
  simp only
  split
  · rename_i h
    have := hlt.mp h
    simpa [twoTo_eq] using this
  · refine hu.trans_le ?_
    rw [← zpow_natCast, ← zpow_add₀ two_ne_zero]
    exact zpow_le_zpow_right₀ one_le_two (by omega)

theorem least_le_unitExponent (w : Width) (num den : Nat) : w.least ≤ unitExponent w num den := by
  unfold unitExponent
  simp only
  split <;> omega

/-- The unit is no coarser than it has to be. -/
theorem unitExponent_le {num den : Nat} (w : Width) (hn : 0 < num) (hd : 0 < den) :
    unitExponent w num den = w.least ∨
      (2 : ℚ) ^ w.bits * 2 ^ unitExponent w num den ≤ 2 * (num / den) := by
  have hl := (log2_div_bounds hn hd).1
  have hlt := scaled_div_lt_iff num hd
    (max w.least ((num.log2 : Int) - den.log2 - w.bits)) (twoTo w.bits)
  unfold unitExponent
  simp only
  split
  · rcases le_or_gt ((num.log2 : Int) - den.log2 - w.bits) w.least with h | h
    · exact .inl (max_eq_left h)
    · right
      rw [max_eq_right h.le, ← zpow_natCast, ← zpow_add₀ two_ne_zero]
      have he : (w.bits : Int) + ((num.log2 : Int) - den.log2 - w.bits) =
          1 + ((num.log2 : Int) - den.log2 - 1) := by ring
      rw [he, zpow_add₀ two_ne_zero, zpow_one]
      gcongr
  · rename_i h
    right
    have := le_of_not_gt (fun hc => h (hlt.mpr hc))
    rw [zpow_add₀ two_ne_zero, zpow_one]
    rw [twoTo_eq] at this
    push_cast at this
    linarith

section
variable {w : Width} {num den : Nat}

theorem nearest_of_pos (hn : 0 < num) : nearest w num den =
    ⟨roundEven (scaled num den (unitExponent w num den)).1
      (scaled num den (unitExponent w num den)).2, unitExponent w num den⟩ := by
  unfold nearest
  rw [if_neg hn.ne']

theorem nearest_error (w : Width) (num : Nat) {den : Nat} (hd : 0 < den) :
    |(nearest w num den).value - num / den| ≤ 2 ^ (nearest w num den).exponent / 2 := by
  rcases Nat.eq_zero_or_pos num with rfl | hn
  · simp [nearest, value]; positivity
  rw [nearest_of_pos hn]
  have he := roundEven_error (scaled num den (unitExponent w num den)).1
    (scaled_pos num (unitExponent w num den) hd)
  rw [scaled_value] at he
  have hp := two_zpow_pos (unitExponent w num den)
  simp only [value]
  generalize (roundEven _ _ : Nat) = r at he ⊢
  calc |(r : ℚ) * 2 ^ unitExponent w num den - num / den|
      = |(r : ℚ) - num / den / 2 ^ unitExponent w num den| * 2 ^ unitExponent w num den := by
        rw [← abs_of_pos hp, ← abs_mul, abs_of_pos hp]; congr 1; field_simp
    _ ≤ 1 / 2 * 2 ^ unitExponent w num den := by gcongr
    _ = 2 ^ unitExponent w num den / 2 := by ring

theorem nearest_significand_le (w : Width) (num : Nat) {den : Nat} (hd : 0 < den) :
    (nearest w num den).significand ≤ 2 ^ w.bits := by
  rcases Nat.eq_zero_or_pos num with rfl | hn
  · simp [nearest]
  rw [nearest_of_pos hn]
  have he := roundEven_error (scaled num den (unitExponent w num den)).1
    (scaled_pos num (unitExponent w num den) hd)
  have hlt := lt_two_zpow_unitExponent w hn hd
  rw [← div_lt_iff₀ (two_zpow_pos _), ← scaled_value] at hlt
  have hr := (abs_le.mp he).2
  -- below `2 ^ bits + 1`, so at most `2 ^ bits`
  have : (roundEven (scaled num den (unitExponent w num den)).1
      (scaled num den (unitExponent w num den)).2 : ℚ) < (2 ^ w.bits + 1 : Nat) := by
    push_cast; linarith
  exact Nat.lt_succ_iff.mp (by exact_mod_cast this)

theorem least_le_exponent_nearest (w : Width) (num den : Nat) :
    w.least ≤ (nearest w num den).exponent := by
  unfold nearest
  split
  · exact le_rfl
  · exact least_le_unitExponent w num den

theorem exponent_nearest_le {e : Int} (hd : 0 < den) (hl : w.least ≤ e)
    (h : (num : ℚ) / den < 2 ^ w.bits * 2 ^ e) : (nearest w num den).exponent ≤ e := by
  rcases Nat.eq_zero_or_pos num with rfl | hn
  · exact hl
  rw [nearest_of_pos hn]
  rcases unitExponent_le w hn hd with hu | hu
  · exact hu.le.trans hl
  · have hlt : (2 : ℚ) ^ unitExponent w num den < 2 ^ (e + 1) := by
      rw [zpow_add₀ two_ne_zero, zpow_one]
      have hb : (0 : ℚ) < 2 ^ w.bits := by positivity
      refine lt_of_mul_lt_mul_left (hu.trans_lt ?_) hb.le
      linarith
    have := (zpow_lt_zpow_iff_right₀ (one_lt_two : (1 : ℚ) < 2)).mp hlt
    exact Int.lt_add_one_iff.mp this

/-- Nothing from the least unit on is rounded to zero. -/
theorem significand_nearest_pos (hw : 0 < w.bits) (hd : 0 < den)
    (h : (2 : ℚ) ^ w.least ≤ num / den) : 0 < (nearest w num den).significand := by
  have hv : (0 : ℚ) < num / den := (two_zpow_pos _).trans_le h
  have hn : 0 < num := by
    rcases Nat.eq_zero_or_pos num with rfl | hn
    · simp at hv
    · exact hn
  have he := nearest_error w num hd
  by_contra hs
  have hz : (nearest w num den).value = 0 := by
    rw [value, Nat.eq_zero_of_not_pos hs, Nat.cast_zero, zero_mul]
  rw [hz, zero_sub, abs_neg, abs_of_pos hv, nearest_of_pos hn] at he
  simp only at he
  have hp := two_zpow_pos (unitExponent w num den)
  rcases unitExponent_le w hn hd with hu | hu
  · rw [hu] at he hp
    linarith
  · have hb : (2 : ℚ) ≤ 2 ^ w.bits := by
      simpa using pow_le_pow_right₀ (one_le_two : (1 : ℚ) ≤ 2) hw
    have := mul_le_mul_of_nonneg_right hb hp.le
    linarith

/-- A natural that fits the width is not rounded. -/
theorem nearest_of_natural (hl : w.least ≤ 0) (hn : num < 2 ^ w.bits) :
    (nearest w num 1).value = num := by
  rcases Nat.eq_zero_or_pos num with rfl | hp
  · simp [nearest, value]
  have he : unitExponent w num 1 ≤ 0 := by
    rcases unitExponent_le w hp Nat.one_pos with h | h
    · rw [h]; exact hl
    · by_contra hc
      have h2 : (2 : ℚ) ^ (1 : Int) ≤ 2 ^ unitExponent w num 1 :=
        zpow_le_zpow_right₀ one_le_two (by omega)
      rw [zpow_one] at h2
      have hb : (0 : ℚ) < 2 ^ w.bits := by positivity
      have hnq : (num : ℚ) < 2 ^ w.bits := by exact_mod_cast hn
      have := mul_le_mul_of_nonneg_left h2 hb.le
      simp only [Nat.cast_one, div_one] at h
      linarith
  have hden : (scaled num 1 (unitExponent w num 1)).2 = 1 := by
    unfold scaled
    split
    · rfl
    · have : unitExponent w num 1 = 0 := by omega
      simp [this]
  have hv := scaled_value num 1 (unitExponent w num 1)
  rw [hden] at hv
  rw [nearest_of_pos hp]
  simp only [value, hden, roundEven_one]
  simp only [Nat.cast_one, div_one] at hv
  rw [hv, div_mul_cancel₀ _ (two_zpow_pos _).ne']

end

theorem divNat_eq (w : Width) (x : Binary) (k : Nat) :
    x.divNat w k = nearest w x.ratio.1 (x.ratio.2 * k) := rfl

theorem ratio_num_pos {x : Binary} (h : 0 < x.value) : 0 < x.ratio.1 := by
  rw [← ratio_value] at h
  rcases Nat.eq_zero_or_pos x.ratio.1 with h0 | h0
  · simp [h0] at h
  · exact h0

theorem ratio_div_value (x : Binary) (k : Nat) :
    (x.ratio.1 : ℚ) / (x.ratio.2 * k : Nat) = x.value / k := by
  rw [← ratio_value]; push_cast; rw [div_div]

end Binary

end ScoreSynth.Number
