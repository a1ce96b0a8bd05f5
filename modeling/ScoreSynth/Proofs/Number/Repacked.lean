import ScoreSynth.Proofs.Number.Comparison
import ScoreSynth.Proofs.Number.Signs

/-!
# Doubles taken apart and put together

A finite double without a minus sign is the number that is packed from its magnitude, and numbers of
the width of a double that have one value are packed into one double.
-/

open Float.Model
open Float.Model.UnpackedFloat

namespace ScoreSynth.Number

namespace Binary

variable {x y : Binary}

theorem OfWidth.lt_exponent (hx : x.OfWidth .double) (hy : y.OfWidth .double)
    (h : x.value = y.value) (hlt : x.exponent < y.exponent) :
    y.exponent = x.exponent + 1 ∧ x.significand = 2 ^ 53 ∧ y.significand = 2 ^ 52 := by
  obtain ⟨k, hk⟩ := Int.exists_add_of_le hlt.le
  have hfull : 2 ^ 53 ≤ 2 * y.significand := by
    have hle := hx.least_le
    exact hy.full.resolve_left (by omega)
  have hsig : x.significand ≤ 2 ^ 53 := hx.le
  have hvalue : x.significand = y.significand * 2 ^ k := by
    have hpos := two_zpow_pos x.exponent
    rw [value, value, hk, zpow_add₀ two_ne_zero, zpow_natCast, mul_left_comm, mul_comm] at h
    exact_mod_cast mul_left_cancel₀ hpos.ne' h
  obtain ⟨j, rfl⟩ := Nat.exists_eq_add_of_lt (show 0 < k by omega)
  have hone : 1 ≤ 2 ^ j := Nat.one_le_two_pow
  rw [Nat.zero_add, pow_succ] at hvalue
  have hj : 2 ^ j = 1 := by nlinarith
  have h0 : j = 0 := by simpa using hj
  subst h0
  omega

/-- A value has one form in the width, but for the full significand that is a power of two. -/
theorem toFloat_congr (hx : x.OfWidth .double) (hy : y.OfWidth .double) (h : x.value = y.value)
    (negative : Bool) : x.toFloat negative = y.toFloat negative := by
  wlog hle : x.exponent ≤ y.exponent generalizing x y
  · exact (this hy hx h.symm (not_le.mp hle).le).symm
  have hleast : -1074 ≤ x.exponent := hx.least_le
  obtain ⟨m, e⟩ := x
  obtain ⟨n, f⟩ := y
  rcases hle.eq_or_lt with heq | hlt
  · obtain rfl : e = f := heq
    have hm : (m : ℚ) = n := mul_right_cancel₀ (two_zpow_pos e).ne' h
    rw [show m = n by exact_mod_cast hm]
  · obtain ⟨hexp, hsig, hsig'⟩ := hx.lt_exponent hy h hlt
    simp only at hexp hsig hsig' hleast
    subst hexp hsig hsig'
    have hpasses : (⟨2 ^ 53, e⟩ : Binary).passesDouble = (⟨2 ^ 52, e + 1⟩ : Binary).passesDouble := by
      unfold passesDouble
      simp only [Nat.log2_two_pow]
      congr 1
      simp only [decide_eq_decide]
      omega
    have hbits : (e + 1075).toNat * 2 ^ 52 + 2 ^ 53 = (e + 1 + 1075).toNat * 2 ^ 52 + 2 ^ 52 := by
      omega
    unfold toFloat
    rw [hpasses]
    simp only [twoTo_eq, hbits]

end Binary

/-- What a rational is rounded to, if it is in the range of doubles. -/
theorem value_nearest_of_rounded {p q : ℚ≥0} {num den : Nat} (hd : 0 < den)
    (hq : (num : ℚ) / den = q) (h : rounded (q : WithTop ℚ≥0) = (p : WithTop ℚ≥0)) :
    (Binary.nearest .double num den).value = p := by
  have hsize : (nearestDouble q).size = p := by
    change held (nearestDouble q).size = _ at h
    unfold held at h
    split at h
    · exact WithTop.coe_eq_coe.mp h
    · cases h
  have hratio : (q.num : ℚ) / q.den = num / den := by
    rw [hq]
    exact (NNRat.cast_def q).symm
  have hden := q.den_pos
  rw [← hsize, Binary.size_eq_value]
  exact le_antisymm (Binary.nearest_mono (by decide) hd hden hratio.ge)
    (Binary.nearest_mono (by decide) hden hd hratio.le)

section
variable {x : Float}

theorem eq_zero_of_unpack (h : x.toModel.unpack = .zero .positive) : x = 0.0 := by
  rw [← pack_unpack_eq x, h]
  rfl

theorem magnitude_ofFloat (hx : NonNegative x) (hfinite : magnitude x ≠ ⊤) :
    magnitude x = (Binary.ofFloat x).size := by
  rcases hx.kinds with ⟨s, h⟩ | h | ⟨m, e, hm, h⟩
  · rw [magnitude_of_zero h, ofFloat_of_zero h, Binary.size]
    simp
  · exact absurd (magnitude_of_infinity h) hfinite
  · rw [magnitude_of_finite h, ofFloat_of_finite h]
    rfl

theorem ofWidth_ofFloat (hx : NonNegative x) (hfinite : magnitude x ≠ ⊤) :
    (Binary.ofFloat x).OfWidth .double := by
  rcases hx.kinds with ⟨s, h⟩ | h | ⟨m, e, hm, h⟩
  · rw [ofFloat_of_zero h]
    exact ⟨le_rfl, Nat.zero_le _, .inl rfl⟩
  · exact absurd (magnitude_of_infinity h) hfinite
  · obtain ⟨hlt, hle, hfull⟩ := (kept_of_finite h).1.bounds
    rw [ofFloat_of_finite h]
    refine ⟨hle, hlt.le, hfull.imp_right fun hm => ?_⟩
    show 2 ^ 53 ≤ 2 * m
    omega

theorem isNegative_of_unsigned (hx : NonNegative x) (hu : Unsigned x) : isNegative x = false := by
  rcases hx.kinds with ⟨s, h⟩ | h | ⟨m, e, hm, h⟩
  · cases s with
    | positive =>
      rw [eq_zero_of_unpack h]
      decide
    | negative =>
      rw [Unsigned, h] at hu
      cases hu
  · exact isNegative_of_signOf (bits_of_infinity h)
  · exact isNegative_of_signOf (bits_of_finite h).1

theorem ofBits_toBits (x : Float) : .ofBits x.toBits = x := pack_unpack_eq x

theorem toFloat_ofFloat (hx : NonNegative x) (hu : Unsigned x) (hfinite : magnitude x ≠ ⊤) :
    (Binary.ofFloat x).toFloat false = x := by
  rcases hx.kinds with ⟨s, h⟩ | h | ⟨m, e, hm, h⟩
  · cases s with
    | positive =>
      rw [ofFloat_of_zero h, eq_zero_of_unpack h]
      decide +kernel
    | negative =>
      rw [Unsigned, h] at hu
      cases hu
  · exact absurd (magnitude_of_infinity h) hfinite
  · obtain ⟨hsign, hparts⟩ := bits_of_finite h
    obtain ⟨hlt, hle, -⟩ := (kept_of_finite h).1.bounds
    have hpasses : (⟨m, e⟩ : Binary).passesDouble = false := by
      have hlog := log2_lt_of_lt (by decide) hlt
      have he := (kept_of_finite h).2
      unfold Binary.passesDouble
      simp only [Bool.and_eq_false_iff, decide_eq_false_iff_not]
      omega
    have hbits : (e + 1075).toNat * 2 ^ 52 + m - 2 ^ 52 = x.toBits.toNat := by
      unfold signOf at hsign
      split at hsign
      · omega
      · cases hsign
    rw [ofFloat_of_finite h]
    unfold Binary.toFloat
    rw [hpasses, if_neg Bool.false_ne_true, if_neg Bool.false_ne_true]
    show Float.ofBits (UInt64.ofNat ((e + 1075).toNat * twoTo 52 + m - twoTo 52 + 0)) = x
    rw [Nat.add_zero, twoTo_eq, hbits, UInt64.ofNat_toNat, ofBits_toBits]

end

end ScoreSynth.Number
