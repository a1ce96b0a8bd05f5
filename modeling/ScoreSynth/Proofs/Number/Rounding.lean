import Mathlib
import ScoreSynth.Proofs.Number.Nearest

/-!
# How doubles are rounded

A float operation cuts its exact result off behind the bits that the format keeps, remembers how the
rest compares with a half, and rounds by that. What comes out is the nearest double.
-/

open Float.Model
open Float.Model.UnpackedFloat

namespace ScoreSynth.Number

/-! ## Behind the point -/

/-- The natural part of a quotient, the first bit behind the point, and whether a bit follows. -/
def extended (num den : Nat) : ExtendedMantissa :=
  ⟨num / den, decide (den ≤ 2 * (num % den)), decide (2 * num % den ≠ 0)⟩

section
variable {num den : Nat}

theorem extended_one (m : Nat) : ExtendedMantissa.ofMantissaAndAccuracy m .exact = extended m 1 := by
  simp [extended, ExtendedMantissa.ofMantissaAndAccuracy, Nat.mod_one]

theorem two_mul_mod_of_lt (h : 2 * (num % den) < den) : 2 * num % den = 2 * (num % den) := by
  rw [← Nat.mul_mod_mod, Nat.mod_eq_of_lt h]

theorem two_mul_mod_of_le (hd : 0 < den) (h : den ≤ 2 * (num % den)) :
    2 * num % den = 2 * (num % den) - den := by
  have := Nat.mod_lt num hd
  rw [← Nat.mul_mod_mod, Nat.mod_eq_sub_mod h, Nat.mod_eq_of_lt (by omega)]

theorem extended_fraction (hd : 0 < den) :
    ExtendedMantissa.ofMantissaAndAccuracy (num / den) (accuracyOfFraction (num % den) den) =
      extended num den := by
  unfold accuracyOfFraction extended
  rcases Nat.lt_trichotomy (2 * (num % den)) den with h | h | h
  · rw [Nat.compare_eq_lt.mpr h, two_mul_mod_of_lt h]
    by_cases h0 : num % den = 0
    · simp [ExtendedMantissa.ofMantissaAndAccuracy, h0, hd.ne']
    · simp [ExtendedMantissa.ofMantissaAndAccuracy, h0, h]
  · rw [Nat.compare_eq_eq.mpr h, two_mul_mod_of_le hd h.ge, if_neg (by omega)]
    simp [ExtendedMantissa.ofMantissaAndAccuracy, h]
  · rw [Nat.compare_eq_gt.mpr h, two_mul_mod_of_le hd h.le, if_neg (by omega)]
    have h0 : 2 * (num % den) - den ≠ 0 := by omega
    simp [ExtendedMantissa.ofMantissaAndAccuracy, h.le, h0]

theorem shiftRightOne_extended (hd : 0 < den) :
    (extended num den).shiftRightOne = extended num (den * 2) := by
  have hmod : num % (den * 2) = num % den + den * (num / den % 2) := Nat.mod_mul
  have hlt := Nat.mod_lt num hd
  have hround : (num / den % 2 != 0) = decide (den * 2 ≤ 2 * (num % (den * 2))) := by
    rw [hmod]
    rcases Nat.mod_two_eq_zero_or_one (num / den) with h | h
    · rw [h, eq_comm, decide_eq_false (by omega)]
      rfl
    · rw [h, eq_comm, decide_eq_true (by omega)]
      rfl
  have hsticky : (decide (den ≤ 2 * (num % den)) || decide (2 * num % den ≠ 0)) =
      decide (2 * num % (den * 2) ≠ 0) := by
    rw [mul_comm den 2, Nat.mul_mod_mul_left, ← Bool.decide_or]
    refine decide_eq_decide.mpr ⟨fun h => ?_, fun h => ?_⟩
    · rcases h with h | h
      · omega
      · intro h0
        exact h (by rw [two_mul_mod_of_lt (by omega)]; exact h0)
    · refine or_iff_not_imp_left.mpr fun hl => ?_
      rw [two_mul_mod_of_lt (not_le.mp hl)]
      exact h
  show ExtendedMantissa.mk (num / den / 2) _ _ = ExtendedMantissa.mk (num / (den * 2)) _ _
  rw [Nat.div_div_eq_div_mul]
  exact congrArg₂ (ExtendedMantissa.mk _) hround hsticky

theorem shiftRight_extended (hd : 0 < den) (n : Nat) :
    extended num den >>> n = extended num (den * 2 ^ n) := by
  show n.repeat ExtendedMantissa.shiftRightOne (extended num den) = _
  induction n with
  | zero => rw [pow_zero, mul_one]; rfl
  | succ n ih =>
    rw [Nat.repeat, ih, shiftRightOne_extended (by positivity), mul_assoc, ← pow_succ]

theorem roundedMantissa_extended (hd : 0 < den) :
    (extended num den).roundedMantissa = roundEven num den := by
  unfold extended roundEven
  rcases Nat.lt_trichotomy (2 * (num % den)) den with h | h | h
  · rw [two_mul_mod_of_lt h, if_pos h, decide_eq_false (by omega)]
    cases decide (2 * (num % den) ≠ 0) <;> rfl
  · rw [two_mul_mod_of_le hd h.ge, if_neg (by omega), if_neg (by omega), decide_eq_true (by omega),
      decide_eq_false (by omega)]
    rfl
  · rw [two_mul_mod_of_le hd h.le, if_neg (by omega), if_pos h, decide_eq_true (by omega),
      decide_eq_true (by omega)]
    rfl

theorem roundEven_congr {num' den' : Nat} (hd : 0 < den) (hd' : 0 < den')
    (h : (num : ℚ) / den = num' / den') : roundEven num den = roundEven num' den' :=
  le_antisymm (roundEven_mono hd hd' h.le) (roundEven_mono hd' hd h.ge)

end

/-! ## To the width of a double -/

theorem targetExponent_eq (k : Int) :
    Format.binary64.targetExponent k = max (k - 53) (-1074) := rfl

def Binary.size (x : Binary) : ℚ≥0 := x.significand * 2 ^ x.exponent

theorem Binary.size_eq_value (x : Binary) : (x.size : ℚ) = x.value := by
  simp [size, value]

def held (q : ℚ≥0) : WithTop ℚ≥0 := if q < 2 ^ 1024 then q else ⊤

/-- Zero or a finite number with the given sign and size, in the form in which a double is kept but
for a bound on the exponent. -/
inductive Kept (s : Sign) : ℚ≥0 → UnpackedFloat → Prop where
  | zero : Kept s 0 (.zero s)
  | finite {m : Nat} {e : Int} (hm : 0 < m) (hlt : m < 2 ^ 53) (hle : -1074 ≤ e)
      (hfull : e = -1074 ∨ 2 ^ 52 ≤ m) : Kept s (m * 2 ^ e) (.finite s m e hm)

theorem log2_lt_of_lt {m n : Nat} (hn : 0 < n) (h : m < 2 ^ n) : m.log2 < n := by
  rcases Nat.eq_zero_or_pos m with rfl | hm
  · rwa [Nat.log2_zero]
  · exact (Nat.log2_lt hm.ne').mpr h

/-- A significand that was rounded up to 53 bits and one more is halved. -/
theorem kept_carried (s : Sign) {x : Binary} (hx : x.OfWidth .double) :
    let carried := shiftToTargetExponent .binary64 x.significand x.exponent .exact
    Kept s x.size (if h : carried.1.mantissa = 0 then .zero s
      else .finite s carried.1.mantissa carried.2 (Nat.pos_of_ne_zero h)) := by
  obtain ⟨hle, hsig, hfull⟩ := hx
  obtain ⟨m, e⟩ := x
  change -1074 ≤ e at hle
  change m ≤ 2 ^ 53 at hsig
  change e = -1074 ∨ 2 ^ 53 ≤ 2 * m at hfull
  intro carried
  rcases hsig.eq_or_lt with rfl | hlt
  · -- rounding up gave a power of two, which the second shift halves without loss
    have hcarried : carried = (extended (2 ^ 53) 2, e + 1) := by
      have htarget : Format.binary64.targetExponent (totalExponent (2 ^ 53) e) = e + 1 := by
        rw [targetExponent_eq, totalExponent, Nat.log2_two_pow]
        omega
      show shiftToExponent _ _ _ (Format.binary64.targetExponent (totalExponent (2 ^ 53) e)) = _
      rw [htarget, shiftToExponent, add_sub_cancel_left, extended_one,
        shiftRight_extended Nat.one_pos]
      rfl
    have hmant : (extended (2 ^ 53) 2).mantissa = 2 ^ 52 := by decide
    simp only [hcarried, hmant]
    rw [dif_neg (by decide)]
    have hsize : (⟨2 ^ 53, e⟩ : Binary).size = (2 ^ 52 : Nat) * 2 ^ (e + 1) := by
      rw [Binary.size, zpow_add₀ two_ne_zero]
      push_cast
      ring
    rw [hsize]
    exact .finite (by decide) (by decide) (by omega) (.inr le_rfl)
  · have hcarried : carried = (extended m 1, e) := by
      have htarget : Format.binary64.targetExponent (totalExponent m e) ≤ e := by
        have := log2_lt_of_lt (by decide) hlt
        rw [targetExponent_eq, totalExponent]
        omega
      show shiftToExponent _ _ _ (Format.binary64.targetExponent (totalExponent m e)) = _
      rw [shiftToExponent, Int.toNat_of_nonpos (sub_nonpos.mpr htarget), extended_one,
        shiftRight_extended Nat.one_pos]
      exact Prod.ext rfl (add_zero e)
    rw [hcarried]
    have hmant : (extended m 1).mantissa = m := Nat.div_one m
    simp only [hmant]
    rcases Nat.eq_zero_or_pos m with rfl | hm
    · rw [dif_pos rfl, Binary.size, Nat.cast_zero, zero_mul]
      exact .zero
    · rw [dif_neg hm.ne']
      exact .finite hm hlt hle (hfull.imp_right fun h => by omega)

section
variable {m num den num' den' : Nat} {e : Int} {acc : Accuracy}

/-- The exponent to which a result is cut off is that of its nearest double. -/
theorem unitExponent_eq_target (hd : 0 < den) (hm : m = num / den)
    (he : e ≤ Format.binary64.targetExponent (totalExponent m e)) (hn' : 0 < num') (hd' : 0 < den')
    (hv : (num' : ℚ) / den' = num / den * 2 ^ e) :
    Binary.unitExponent .double num' den' =
      Format.binary64.targetExponent (totalExponent m e) := by
  have hdq : (0 : ℚ) < den := by exact_mod_cast hd
  have hp := Binary.two_zpow_pos e
  have hlt : (num : ℚ) / den < m + 1 := by
    rw [div_lt_iff₀ hdq]
    have := Nat.lt_mul_div_succ num hd
    rw [← hm, mul_comm] at this
    exact_mod_cast this
  have hup : (m : ℚ) + 1 ≤ 2 ^ ((m.log2 : Int) + 1) := by
    have : m + 1 ≤ 2 ^ (m.log2 + 1) := Nat.lt_log2_self
    exact_mod_cast this
  rw [targetExponent_eq, totalExponent] at he ⊢
  have hwidth : ((2 : ℚ) ^ Width.double.bits) = 2 ^ (53 : Int) := rfl
  -- the bits of the natural part tell between which powers of two the quotient lies
  refine Binary.unitExponent_eq hn' hd' (le_max_right _ _) ?_ ?_
  · rw [hv, hwidth, ← zpow_add₀ two_ne_zero]
    calc (num : ℚ) / den * 2 ^ e < 2 ^ ((m.log2 : Int) + 1) * 2 ^ e :=
          mul_lt_mul_of_pos_right (hlt.trans_le hup) hp
      _ = 2 ^ ((m.log2 : Int) + 1 + e) := (zpow_add₀ two_ne_zero _ _).symm
      _ ≤ _ := zpow_le_zpow_right₀ one_le_two (by omega)
  · refine or_iff_not_imp_left.mpr fun hne => ?_
    change ¬ max _ _ = (-1074 : Int) at hne
    have hm0 : m ≠ 0 := by
      rintro rfl
      rw [Nat.log2_zero] at he hne
      omega
    have hlow : (2 : ℚ) ^ (m.log2 : Int) ≤ num / den := by
      rw [le_div_iff₀ hdq]
      have : 2 ^ m.log2 * den ≤ num := (Nat.le_div_iff_mul_le hd).mp (hm ▸ Nat.log2_self_le hm0)
      exact_mod_cast this
    have hmax : max ((m.log2 : Int) + 1 + e - 53) (-1074) = m.log2 + 1 + e - 53 := by omega
    rw [hv, hwidth, hmax, ← zpow_add₀ two_ne_zero]
    calc (2 : ℚ) ^ (53 + ((m.log2 : Int) + 1 + e - 53)) = 2 * (2 ^ (m.log2 : Int) * 2 ^ e) := by
          rw [show 53 + ((m.log2 : Int) + 1 + e - 53) = m.log2 + e + 1 by ring,
            Binary.zpow_succ_two, zpow_add₀ two_ne_zero]
      _ ≤ _ := mul_le_mul_of_nonneg_left (mul_le_mul_of_nonneg_right hlow hp.le) two_pos.le

/-- What an operation makes of an exact quotient is its nearest double. -/
theorem kept_roundWithAccuracy (s : Sign) (hd : 0 < den) (hm : m = num / den)
    (hacc : ExtendedMantissa.ofMantissaAndAccuracy m acc = extended num den)
    (he : e ≤ Format.binary64.targetExponent (totalExponent m e)) (hn' : 0 < num') (hd' : 0 < den')
    (hv : (num' : ℚ) / den' = num / den * 2 ^ e) :
    Kept s (Binary.nearest .double num' den').size
      (roundWithAccuracy .binary64 s m e acc) := by
  have hunit := unitExponent_eq_target hd hm he hn' hd' hv
  have hwidth := Binary.ofWidth_nearest (w := .double) (by decide) num' hd'
  rw [Binary.nearest_of_pos hn', hunit] at hwidth ⊢
  generalize htarget : Format.binary64.targetExponent (totalExponent m e) = t at *
  have hpos : 0 < den * 2 ^ (t - e).toNat := by positivity
  have hshift : shiftToTargetExponent .binary64 m e acc =
      (extended num (den * 2 ^ (t - e).toNat), t) := by
    show shiftToExponent _ _ _ (Format.binary64.targetExponent (totalExponent m e)) = _
    rw [htarget, shiftToExponent, hacc, shiftRight_extended hd]
    exact Prod.ext rfl (show e + ((t - e).toNat : Int) = t by omega)
  have hround : roundEven (Binary.scaled num' den' t).1 (Binary.scaled num' den' t).2 =
      roundEven num (den * 2 ^ (t - e).toNat) := by
    refine roundEven_congr (Binary.scaled_pos num' t hd') hpos ?_
    rw [Binary.scaled_value, hv, Nat.cast_mul, Nat.cast_pow, Nat.cast_ofNat, ← zpow_natCast,
      Int.toNat_of_nonneg (by omega), zpow_sub₀ two_ne_zero]
    have := Binary.two_zpow_pos e
    field_simp
  rw [hround] at hwidth ⊢
  have hkept := kept_carried s hwidth
  rw [← roundedMantissa_extended hpos] at hkept ⊢
  unfold roundWithAccuracy
  rw [hshift]
  exact hkept

end

/-- The same for a result that may first have to be written with more bits. -/
theorem kept_round (s : Sign) {m num den : Nat} {e : Int} (hm : 0 < m) (hn : 0 < num) (hd : 0 < den)
    (hv : (num : ℚ) / den = m * 2 ^ e) :
    Kept s (Binary.nearest .double num den).size (UnpackedFloat.round .binary64 s m e) := by
  unfold UnpackedFloat.round decreaseExponent
  simp only [Nat.shiftLeft_eq]
  generalize htarget : Format.binary64.targetExponent (totalExponent m e) = t
  rw [targetExponent_eq, totalExponent] at htarget
  have hm' : 0 < m * 2 ^ (e - t).toNat := by positivity
  have hlog : (m * 2 ^ (e - t).toNat).log2 = m.log2 + (e - t).toNat := by
    have h1 := Nat.log2_self_le hm.ne'
    have h2 := @Nat.lt_log2_self m
    rw [Nat.log2_eq_iff hm'.ne', pow_add, add_right_comm, pow_add 2 (m.log2 + 1)]
    exact ⟨Nat.mul_le_mul_right _ h1, Nat.mul_lt_mul_of_pos_right h2 (by positivity)⟩
  refine kept_roundWithAccuracy s Nat.one_pos (Nat.div_one _).symm (extended_one _) ?_ hn hd ?_
  · rw [targetExponent_eq, totalExponent, hlog]
    push_cast
    omega
  · rw [hv, Nat.cast_one, div_one, Nat.cast_mul, Nat.cast_pow, Nat.cast_ofNat, mul_assoc,
      ← zpow_natCast, ← zpow_add₀ two_ne_zero, add_sub_cancel]

end ScoreSynth.Number
