import ScoreSynth.Proofs.Number.Comparison

/-!
# Arithmetic of doubles from zero on

The sum, product and quotient of doubles that are not below zero, and the double of a natural, are
the exact ones, rounded.
-/

open Float.Model
open Float.Model.UnpackedFloat

namespace ScoreSynth.Number

/-! ## Finite operands -/

abbrev nearestDouble (q : ℚ≥0) : Binary := .nearest .double q.num q.den

section
variable {m n : Nat} {e f : Int} {hm : 0 < m} {hn : 0 < n}

theorem kept_round_of_pos {q : ℚ≥0} (hm : 0 < m) (hq : (m * 2 ^ e : ℚ≥0) = q) :
    Kept .positive (nearestDouble q).size (UnpackedFloat.round .binary64 .positive m e) := by
  have hpos : 0 < q := by
    rw [← hq]
    exact mul_pos (by exact_mod_cast hm) (zpow_pos two_pos _)
  refine kept_round .positive hm (NNRat.num_pos.mpr hpos) (NNRat.den_pos q) ?_
  rw [← NNRat.cast_def, ← hq]
  push_cast
  rfl

theorem kept_normalize {q : ℚ≥0} (hm : 0 < m) (hq : (m * 2 ^ e : ℚ≥0) = q) (z : Sign) :
    Kept .positive (nearestDouble q).size (UnpackedFloat.normalize .binary64 m e z) := by
  have hcompare : compare (m : Int) 0 = .gt := compare_gt_iff_gt.mpr (by omega)
  rw [UnpackedFloat.normalize, hcompare]
  exact kept_round_of_pos hm hq

theorem decreaseExponent_size (m : Nat) {e t : Int} (h : t ≤ e) :
    ((decreaseExponent m e t).1 * 2 ^ t : ℚ≥0) = m * 2 ^ e := by
  rw [decreaseExponent, Nat.shiftLeft_eq, Nat.cast_mul, Nat.cast_pow, Nat.cast_ofNat, mul_assoc,
    ← zpow_natCast, ← zpow_add₀ two_ne_zero, Int.toNat_of_nonneg (sub_nonneg.mpr h),
    sub_add_cancel]

theorem kept_add : Kept .positive (nearestDouble (m * 2 ^ e + n * 2 ^ f)).size
    (.add .binary64 (.finite .positive m e hm) (.finite .positive n f hn)) := by
  have hpos : 0 < (decreaseExponent m e (min e f)).1 := by
    rw [decreaseExponent, Nat.shiftLeft_eq]
    positivity
  refine kept_normalize (Nat.add_pos_left hpos (decreaseExponent n f (min e f)).1) ?_ .positive
  rw [Nat.cast_add, add_mul, decreaseExponent_size m (min_le_left e f),
    decreaseExponent_size n (min_le_right e f)]

/-- A product has the bits of a double unless both factors are among the smallest doubles. -/
theorem product_full (hm : 0 < m) (hn : 0 < n) (hfm : e = -1074 ∨ 2 ^ 52 ≤ m)
    (hfn : f = -1074 ∨ 2 ^ 52 ≤ n) : e + f ≤ -1074 ∨ 2 ^ 52 ≤ m * n := by
  have hmn := Nat.le_mul_of_pos_right m hn
  have hnm := Nat.le_mul_of_pos_left n hm
  omega

theorem mul_exponent_le (h : e + f ≤ -1074 ∨ 2 ^ 52 ≤ m * n) :
    e + f ≤ Format.binary64.targetExponent (totalExponent (m * n) (e + f)) := by
  rw [targetExponent_eq, totalExponent]
  rcases h with h | h
  · omega
  · have := (Nat.le_log2 (by omega)).mpr h
    omega

theorem kept_mul (hm : 0 < m) (hn : 0 < n) (h : e + f ≤ -1074 ∨ 2 ^ 52 ≤ m * n) :
    Kept .positive (nearestDouble (m * 2 ^ e * (n * 2 ^ f))).size
      (.mul .binary64 (.finite .positive m e hm) (.finite .positive n f hn)) := by
  have hpos : (0 : ℚ≥0) < m * 2 ^ e * (n * 2 ^ f) := by
    have hm : (0 : ℚ≥0) < m := by exact_mod_cast hm
    have hn : (0 : ℚ≥0) < n := by exact_mod_cast hn
    positivity
  refine kept_roundWithAccuracy .positive Nat.one_pos (Nat.div_one _).symm (extended_one _)
    (mul_exponent_le h) (NNRat.num_pos.mpr hpos) (NNRat.den_pos _) ?_
  rw [← NNRat.cast_def, zpow_add₀ two_ne_zero]
  push_cast
  ring

/-- A quotient is taken with so many bits that some have to be cut off again. -/
theorem div_exponent_le {t : Int} (hm : 0 < m) (hn : 0 < n) (hle : t ≤ e - f)
    (ht : t ≤ Format.binary64.targetExponent (totalExponent m e - totalExponent n f)) :
    t ≤ Format.binary64.targetExponent (totalExponent (m * 2 ^ (e - f - t).toNat / n) t) := by
  rw [targetExponent_eq, totalExponent, totalExponent] at ht
  rw [targetExponent_eq, totalExponent]
  rcases le_or_gt t (-1074) with h | h
  · omega
  have hbits : n.log2 + 53 ≤ m.log2 + (e - f - t).toNat := by omega
  have hquotient : 2 ^ 52 ≤ m * 2 ^ (e - f - t).toNat / n := by
    rw [Nat.le_div_iff_mul_le hn]
    calc 2 ^ 52 * n ≤ 2 ^ 52 * 2 ^ (n.log2 + 1) := Nat.mul_le_mul_left _ Nat.lt_log2_self.le
      _ = 2 ^ (n.log2 + 53) := by rw [← pow_add]; congr 1; omega
      _ ≤ 2 ^ (m.log2 + (e - f - t).toNat) := Nat.pow_le_pow_right two_pos hbits
      _ = 2 ^ m.log2 * 2 ^ (e - f - t).toNat := pow_add _ _ _
      _ ≤ m * 2 ^ (e - f - t).toNat := Nat.mul_le_mul_right _ (Nat.log2_self_le hm.ne')
  have := (Nat.le_log2 (by omega)).mpr hquotient
  omega

theorem kept_div : Kept .positive (nearestDouble (m * 2 ^ e / (n * 2 ^ f))).size
    (.div .binary64 (.finite .positive m e hm) (.finite .positive n f hn)) := by
  have hpos : (0 : ℚ≥0) < m * 2 ^ e / (n * 2 ^ f) := by
    have hm : (0 : ℚ≥0) < m := by exact_mod_cast hm
    have hn : (0 : ℚ≥0) < n := by exact_mod_cast hn
    positivity
  generalize htarget : min (e - f) (Format.binary64.targetExponent
    (totalExponent m e - totalExponent n f)) = t
  have hle : t ≤ e - f := htarget ▸ min_le_left _ _
  have hle' := htarget ▸ min_le_right (e - f) _
  show Kept .positive _ (roundWithAccuracy .binary64 .positive
    (m <<< (e - f - min (e - f) _).toNat / n) (min (e - f) _) (accuracyOfFraction _ n))
  rw [htarget, Nat.shiftLeft_eq]
  refine kept_roundWithAccuracy .positive hn rfl (extended_fraction hn) ?_
    (NNRat.num_pos.mpr hpos) (NNRat.den_pos _) ?_
  · exact div_exponent_le hm hn hle hle'
  · rw [← NNRat.cast_def, Nat.cast_mul, Nat.cast_pow, Nat.cast_ofNat, ← zpow_natCast,
      Int.toNat_of_nonneg (sub_nonneg.mpr hle)]
    push_cast
    rw [zpow_sub₀ two_ne_zero, zpow_sub₀ two_ne_zero]
    have hp := Binary.two_zpow_pos t
    have hpf := Binary.two_zpow_pos f
    have hn : (0 : ℚ) < n := by exact_mod_cast hn
    field_simp

end

/-! ## Results by kind -/

section
variable {s : Sign} {x y : Float}

theorem rounded_zero : rounded 0 = 0 := rounded_magnitude 0.0

theorem nonNegative_pack_zero : NonNegative (.ofModel (.pack (.zero s))) := by
  cases s <;> exact ⟨rfl, rfl⟩

theorem nonNegative_pack_infinity : NonNegative (.ofModel (.pack (.infinity .positive))) :=
  ⟨rfl, rfl⟩

theorem magnitude_pack_zero : magnitude (.ofModel (.pack (.zero s))) = 0 :=
  congrArg extent (unpack_pack_zero s)

theorem magnitude_pack_infinity : magnitude (.ofModel (.pack (.infinity s))) = ⊤ :=
  congrArg extent (unpack_pack_infinity s)

theorem not_below_pack_notANumber :
    isBelowZero (Float.ofModel (.pack .notANumber)).toModel.unpack = false := rfl

theorem magnitude_pack_notANumber : magnitude (.ofModel (.pack .notANumber)) = 0 := rfl

/-! ## Sums -/

theorem add_eq (x y : Float) :
    x + y = .ofModel (.pack (.add .binary64 x.toModel.unpack y.toModel.unpack)) := rfl

theorem exists_zero_add_zero {t : Sign} (hx : x.toModel.unpack = .zero s)
    (hy : y.toModel.unpack = .zero t) : ∃ r, x + y = .ofModel (.pack (.zero r)) := by
  rw [add_eq, hx, hy]
  cases s <;> cases t <;> exact ⟨_, rfl⟩

theorem zero_add_eq (hx : x.toModel.unpack = .zero s) (hy : ∀ t, y.toModel.unpack ≠ .zero t) :
    x + y = y := by
  conv => rhs; rw [← pack_unpack_eq y]
  rw [add_eq, hx]
  cases hy' : y.toModel.unpack with
  | zero t => exact absurd hy' (hy t)
  | notANumber => rfl
  | infinity t => rfl
  | finite t m e hm => rfl

theorem add_zero_eq (hx : ∀ t, x.toModel.unpack ≠ .zero t) (hy : y.toModel.unpack = .zero s) :
    x + y = x := by
  conv => rhs; rw [← pack_unpack_eq x]
  rw [add_eq, hy]
  cases hx' : x.toModel.unpack with
  | zero t => exact absurd hx' (hx t)
  | notANumber => rfl
  | infinity t => rfl
  | finite t m e hm => rfl

theorem add_spec (hx : NonNegative x) (hy : NonNegative y) :
    NonNegative (x + y) ∧ magnitude (x + y) = rounded (magnitude x + magnitude y) := by
  rcases hx.kinds with ⟨s, h⟩ | h | ⟨m, e, hm, h⟩
  · rw [magnitude_of_zero h, zero_add, rounded_magnitude]
    by_cases k : ∃ t, y.toModel.unpack = .zero t
    · obtain ⟨t, k⟩ := k
      obtain ⟨r, hz⟩ := exists_zero_add_zero h k
      rw [hz, magnitude_of_zero k]
      exact ⟨nonNegative_pack_zero, magnitude_pack_zero⟩
    · rw [zero_add_eq h (not_exists.mp k)]
      exact ⟨hy, rfl⟩
  · rw [magnitude_of_infinity h, top_add, rounded_top, add_eq, h]
    rcases hy.kinds with ⟨t, k⟩ | k | ⟨n, f, hn, k⟩ <;> rw [k] <;>
      exact ⟨nonNegative_pack_infinity, magnitude_pack_infinity⟩
  · rcases hy.kinds with ⟨t, k⟩ | k | ⟨n, f, hn, k⟩
    · have hx' : ∀ t, x.toModel.unpack ≠ .zero t := by rw [h]; exact nofun
      rw [magnitude_of_zero k, add_zero, rounded_magnitude, add_zero_eq hx' k]
      exact ⟨hx, rfl⟩
    · rw [magnitude_of_infinity k, add_top, rounded_top, add_eq, h, k]
      exact ⟨nonNegative_pack_infinity, magnitude_pack_infinity⟩
    · rw [magnitude_of_finite h, magnitude_of_finite k, add_eq, h, k]
      exact ⟨kept_add.nonNegative_pack, kept_add.magnitude_pack⟩

theorem NonNegative.add (hx : NonNegative x) (hy : NonNegative y) : NonNegative (x + y) :=
  (add_spec hx hy).1

theorem NonNegative.le_add (hx : NonNegative x) (hy : NonNegative y) : x ≤ x + y := by
  rw [le_iff_magnitude hx (hx.add hy), (add_spec hx hy).2]
  calc magnitude x = rounded (magnitude x) := (rounded_magnitude x).symm
    _ ≤ rounded (magnitude x + magnitude y) := rounded_mono le_self_add

/-! ## Products -/

theorem mul_eq (x y : Float) :
    x * y = .ofModel (.pack (.mul .binary64 x.toModel.unpack y.toModel.unpack)) := rfl

theorem mul_finite_spec {p q : ℚ≥0} (hx : NonNegative x) (hy : NonNegative y)
    (hp : magnitude x = p) (hq : magnitude y = q) :
    NonNegative (x * y) ∧ magnitude (x * y) = rounded ((p * q : ℚ≥0) : WithTop ℚ≥0) := by
  rcases hx.kinds with ⟨s, h⟩ | h | ⟨m, e, hm, h⟩
  · rw [magnitude_of_zero h] at hp
    rw [← WithTop.coe_eq_coe.mp hp, zero_mul, mul_eq, h]
    rcases hy.kinds with ⟨t, k⟩ | k | ⟨n, f, hn, k⟩
    · rw [k]
      exact ⟨nonNegative_pack_zero, magnitude_pack_zero.trans rounded_zero.symm⟩
    · rw [magnitude_of_infinity k] at hq
      cases hq
    · rw [k]
      exact ⟨nonNegative_pack_zero, magnitude_pack_zero.trans rounded_zero.symm⟩
  · rw [magnitude_of_infinity h] at hp
    cases hp
  · rcases hy.kinds with ⟨t, k⟩ | k | ⟨n, f, hn, k⟩
    · rw [magnitude_of_zero k] at hq
      rw [← WithTop.coe_eq_coe.mp hq, mul_zero, mul_eq, h, k]
      exact ⟨nonNegative_pack_zero, magnitude_pack_zero.trans rounded_zero.symm⟩
    · rw [magnitude_of_infinity k] at hq
      cases hq
    · obtain ⟨-, -, hfm⟩ := (kept_of_finite h).1.bounds
      obtain ⟨-, -, hfn⟩ := (kept_of_finite k).1.bounds
      have hkept := kept_mul hm hn (product_full hm hn hfm hfn)
      rw [magnitude_of_finite h] at hp
      rw [magnitude_of_finite k] at hq
      rw [← WithTop.coe_eq_coe.mp hp, ← WithTop.coe_eq_coe.mp hq, mul_eq, h, k]
      exact ⟨hkept.nonNegative_pack, hkept.magnitude_pack⟩

theorem unpack_of_magnitude_top (hx : NonNegative x) (h : magnitude x = ⊤) :
    x.toModel.unpack = .infinity .positive := by
  rcases hx.kinds with ⟨s, k⟩ | k | ⟨m, e, hm, k⟩
  · rw [magnitude_of_zero k] at h
    cases h
  · exact k
  · exact absurd h (magnitude_lt_top_of_finite k).ne

/-- Zero times infinity is no number and counts as zero. -/
theorem mul_spec (hx : NonNegative x) (hy : NonNegative y) :
    isBelowZero (x * y).toModel.unpack = false ∧
      magnitude (x * y) = rounded (magnitude x * magnitude y) := by
  cases hp : magnitude x with
  | coe p =>
    cases hq : magnitude y with
    | coe q =>
      obtain ⟨hz, hmul⟩ := mul_finite_spec hx hy hp hq
      exact ⟨hz.not_below, hmul⟩
    | top =>
      rw [← hp, mul_eq, unpack_of_magnitude_top hy hq]
      rcases hx.kinds with ⟨s, h⟩ | h | ⟨m, e, hm, h⟩
      · rw [magnitude_of_zero h, zero_mul, rounded_zero, h]
        exact ⟨not_below_pack_notANumber, magnitude_pack_notANumber⟩
      · rw [magnitude_of_infinity h] at hp
        cases hp
      · rw [WithTop.mul_top (magnitude_pos_of_finite h).ne', rounded_top, h]
        exact ⟨nonNegative_pack_infinity.not_below, magnitude_pack_infinity⟩
  | top =>
    rw [mul_eq, unpack_of_magnitude_top hx hp]
    rcases hy.kinds with ⟨t, k⟩ | k | ⟨n, f, hn, k⟩
    · rw [magnitude_of_zero k, mul_zero, rounded_zero, k]
      exact ⟨not_below_pack_notANumber, magnitude_pack_notANumber⟩
    · rw [magnitude_of_infinity k, WithTop.top_mul_top, rounded_top, k]
      exact ⟨nonNegative_pack_infinity.not_below, magnitude_pack_infinity⟩
    · rw [WithTop.top_mul (magnitude_pos_of_finite k).ne', rounded_top, k]
      exact ⟨nonNegative_pack_infinity.not_below, magnitude_pack_infinity⟩

/-! ## Quotients -/

theorem div_eq (x y : Float) :
    x / y = .ofModel (.pack (.div .binary64 x.toModel.unpack y.toModel.unpack)) := rfl

theorem div_spec {p q : ℚ≥0} (hx : NonNegative x) (hy : NonNegative y) (hp : magnitude x = p)
    (hq : magnitude y = q) (hne : q ≠ 0) :
    NonNegative (x / y) ∧ magnitude (x / y) = rounded ((p / q : ℚ≥0) : WithTop ℚ≥0) := by
  rcases hy.kinds with ⟨t, k⟩ | k | ⟨n, f, hn, k⟩
  · rw [magnitude_of_zero k] at hq
    exact absurd (WithTop.coe_eq_coe.mp hq).symm hne
  · rw [magnitude_of_infinity k] at hq
    cases hq
  rw [magnitude_of_finite k] at hq
  rcases hx.kinds with ⟨s, h⟩ | h | ⟨m, e, hm, h⟩
  · rw [magnitude_of_zero h] at hp
    have h0 : 0 / q = 0 := by simp
    rw [← WithTop.coe_eq_coe.mp hp, h0, div_eq, h, k]
    exact ⟨nonNegative_pack_zero, magnitude_pack_zero.trans rounded_zero.symm⟩
  · rw [magnitude_of_infinity h] at hp
    cases hp
  · rw [magnitude_of_finite h] at hp
    rw [← WithTop.coe_eq_coe.mp hp, ← WithTop.coe_eq_coe.mp hq, div_eq, h, k]
    exact ⟨kept_div.nonNegative_pack, kept_div.magnitude_pack⟩

/-- A finite double over one that is not zero is a double again. -/
theorem NonNegative.div (hx : NonNegative x) (hy : NonNegative y) (hfx : magnitude x ≠ ⊤)
    (hy0 : magnitude y ≠ 0) : NonNegative (x / y) := by
  rcases hy.kinds with ⟨t, k⟩ | k | ⟨n, f, hn, k⟩
  · exact absurd (magnitude_of_zero k) hy0
  · rw [div_eq, k]
    rcases hx.kinds with ⟨s, h⟩ | h | ⟨m, e, hm, h⟩
    · rw [h]
      exact nonNegative_pack_zero
    · exact absurd (magnitude_of_infinity h) hfx
    · rw [h]
      exact nonNegative_pack_zero
  · obtain ⟨p, hp⟩ := WithTop.ne_top_iff_exists.mp hfx
    have hq := magnitude_of_finite k
    refine (div_spec hx hy hp.symm hq ?_).1
    rintro h0
    rw [h0] at hq
    exact hy0 hq

end

/-! ## Naturals -/

variable {n : Nat}

theorem kept_ofNat (hn : 0 < n) :
    Kept .positive (nearestDouble n).size (UnpackedFloat.ofNat .binary64 n) := by
  refine kept_normalize hn ?_ .positive
  rw [zpow_zero, mul_one]

/-- The power of ten by which a natural without decimals is scaled. -/
theorem one_spec : NonNegative Float.exactlyRepresentablePowersOfTen[0] ∧
    magnitude Float.exactlyRepresentablePowersOfTen[0] = ((1 : ℚ≥0) : WithTop ℚ≥0) := by
  have h : (Float.exactlyRepresentablePowersOfTen[0]).toModel.unpack =
      .finite .positive (2 ^ 52) (-52) (by decide) := rfl
  refine ⟨⟨rfl, rfl⟩, ?_⟩
  rw [magnitude_of_finite h]
  norm_num

theorem ofNat_of_lt (h : n < 2 ^ 53) : Float.ofNat n =
    .ofModel (.pack (.ofNat .binary64 n)) * Float.exactlyRepresentablePowersOfTen[0] := by
  have hn : n.toUInt64.toNat = n := Nat.mod_eq_of_lt (by omega)
  show Float.ofScientific n false 0 = _
  rw [Float.ofScientific, dif_pos ⟨h, Nat.zero_le _⟩]
  show Float.ofModel (.pack (.ofNat .binary64 n.toUInt64.toNat)) * _ = _
  rw [hn]

theorem ofNat_of_le (h : 2 ^ 53 ≤ n) : Float.ofNat n = .ofModel (.pack (.mul .binary64
    (.finite .positive (n * 2 ^ 53) (-53) (by omega)) (.finite .positive 1 0 Nat.one_pos))) := by
  show Float.ofScientific n false 0 = _
  rw [Float.ofScientific, dif_neg fun hlt => by omega]
  show Float.ofModel (.pack (.ofScientific .binary64 n 0)) = _
  unfold UnpackedFloat.ofScientific
  have hbits : ¬ (0 : Int) < -((2 ^ Format.binary64.exponentBits : Int) + n.log2) :=
    not_lt.mpr (neg_nonpos.mpr (by positivity))
  rw [dif_neg (by omega), if_neg (by decide), if_neg hbits, if_pos le_rfl]
  simp only [Nat.shiftLeft_eq]
  rfl

theorem ofNat_spec (n : Nat) : NonNegative (Float.ofNat n) ∧
    magnitude (Float.ofNat n) = rounded ((n : ℚ≥0) : WithTop ℚ≥0) := by
  rcases Nat.lt_or_ge n (2 ^ 53) with h | h
  · -- a natural that fits is packed as it is and then multiplied by one
    obtain ⟨hone, hmag⟩ := one_spec
    have hn : NonNegative (.ofModel (.pack (.ofNat .binary64 n))) ∧
        magnitude (.ofModel (.pack (.ofNat .binary64 n))) =
          rounded ((n : ℚ≥0) : WithTop ℚ≥0) := by
      rcases Nat.eq_zero_or_pos n with rfl | hpos
      · exact ⟨nonNegative_pack_zero, magnitude_pack_zero.trans rounded_zero.symm⟩
      · exact ⟨(kept_ofNat hpos).nonNegative_pack, (kept_ofNat hpos).magnitude_pack⟩
    obtain ⟨hn, hround⟩ := hn
    have hle : ((n : ℚ≥0) : WithTop ℚ≥0) ≤ ((2 ^ 53 : ℚ≥0) : WithTop ℚ≥0) := by
      exact_mod_cast h.le
    have hfinite := (rounded_le_two_pow (by decide) hle).trans_lt (WithTop.coe_lt_top _)
    obtain ⟨p, hp⟩ := WithTop.ne_top_iff_exists.mp hfinite.ne
    obtain ⟨hz, hmul⟩ := mul_finite_spec hn hone (hround.trans hp.symm) hmag
    rw [ofNat_of_lt h]
    refine ⟨hz, ?_⟩
    rw [hmul, mul_one, hp, ← hround, rounded_magnitude]
  · have hpos : 0 < n * 2 ^ 53 := by omega
    have hkept := kept_mul (e := -53) (f := 0) hpos Nat.one_pos (.inr (by omega))
    have hsize : ((n * 2 ^ 53 : Nat) * 2 ^ (-53 : Int) * ((1 : Nat) * 2 ^ (0 : Int)) : ℚ≥0) = n := by
      push_cast
      rw [zpow_neg, zpow_zero, one_mul, mul_one]
      exact mul_inv_cancel_right₀ (by positivity) _
    rw [hsize] at hkept
    rw [ofNat_of_le h]
    exact ⟨hkept.nonNegative_pack, hkept.magnitude_pack⟩

theorem magnitude_ofNat_ne_zero (hn : 0 < n) : magnitude (Float.ofNat n) ≠ 0 := by
  have hle : ((2 ^ 0 : ℚ≥0) : WithTop ℚ≥0) ≤ ((n : ℚ≥0) : WithTop ℚ≥0) := by
    rw [pow_zero]
    exact_mod_cast hn
  have hone := two_pow_le_rounded (by decide) hle
  rw [← (ofNat_spec n).2, pow_zero] at hone
  exact (one_pos.trans_le hone).ne'

theorem magnitude_ofNat_le {k : Nat} (hk : k < 1024) (hn : n ≤ 2 ^ k) :
    magnitude (Float.ofNat n) ≤ ((2 ^ k : ℚ≥0) : WithTop ℚ≥0) := by
  rw [(ofNat_spec n).2]
  exact rounded_le_two_pow hk (by exact_mod_cast hn)

end ScoreSynth.Number
