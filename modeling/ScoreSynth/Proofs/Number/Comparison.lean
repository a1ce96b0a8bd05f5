import ScoreSynth.Proofs.Number.Doubles

/-!
# The order of doubles from zero on

Doubles that are not below zero compare as what they stand for does. The larger of two is found by
comparing them, so of any double and one from zero on it is from zero on.
-/

open Float.Model
open Float.Model.UnpackedFloat

namespace ScoreSynth.Number

/-! ## Either way round -/

theorem compare_size_swap (m n : Nat) (e f : Int) :
    (compare f e).then (compare n m) = ((compare e f).then (compare m n)).swap := by
  rw [Ordering.swap_then, ← Std.OrientedOrd.eq_swap, ← Std.OrientedOrd.eq_swap]

/-- Two numbers that change places compare the other way round. -/
theorem compare_swap (x y : UnpackedFloat) : y.compare x = (x.compare y).map Ordering.swap := by
  cases x with
  | notANumber => cases y <;> rfl
  | zero s =>
    cases y with
    | finite t n f hn => cases t <;> rfl
    | infinity t => cases t <;> rfl
    | _ => rfl
  | infinity s =>
    cases y with
    | infinity t => cases s <;> cases t <;> rfl
    | _ => cases s <;> rfl
  | finite s m e hm =>
    cases y with
    | notANumber => cases s <;> rfl
    | zero t => cases s <;> rfl
    | infinity t => cases s <;> cases t <;> rfl
    | finite t n f hn =>
      cases s with
      | positive =>
        cases t with
        | positive => exact congrArg some (compare_size_swap m n e f)
        | negative => rfl
      | negative =>
        cases t with
        | positive => rfl
        | negative => exact congrArg (some ·.swap) (compare_size_swap m n e f)

theorem exists_compare {x y : UnpackedFloat} (hx : x.isNaN = false) (hy : y.isNaN = false) :
    ∃ o, x.compare y = some o := by
  cases x with
  | notANumber => cases hx
  | zero s =>
    cases y with
    | notANumber => cases hy
    | zero t => exact ⟨_, rfl⟩
    | infinity t => cases t <;> exact ⟨_, rfl⟩
    | finite t n f hn => cases t <;> exact ⟨_, rfl⟩
  | infinity s =>
    cases y with
    | notANumber => cases hy
    | infinity t => exact ⟨_, rfl⟩
    | _ => cases s <;> exact ⟨_, rfl⟩
  | finite s m e hm =>
    cases y with
    | notANumber => cases hy
    | zero t => cases s <;> exact ⟨_, rfl⟩
    | infinity t => cases t <;> exact ⟨_, rfl⟩
    | finite t n f hn => cases s <;> cases t <;> exact ⟨_, rfl⟩

theorem le_of_not_lt {x y : UnpackedFloat} (hx : x.isNaN = false) (hy : y.isNaN = false)
    (h : ¬x.lt y = true) : y.le x = true := by
  obtain ⟨o, ho⟩ := exists_compare hx hy
  rw [UnpackedFloat.lt, ho] at h
  rw [UnpackedFloat.le, compare_swap, ho]
  cases o with
  | lt => exact absurd rfl h
  | eq => rfl
  | gt => rfl

/-! ## Order -/

theorem size_lt_of_exponent_lt {m n : Nat} {e f : Int} (hlt : m < 2 ^ 53) (hfull : 2 ^ 52 ≤ n)
    (h : e < f) : (m * 2 ^ e : ℚ≥0) < n * 2 ^ f := by
  have hm : (m : ℚ≥0) < 2 ^ 53 := by exact_mod_cast hlt
  have hn : (2 : ℚ≥0) ^ 52 ≤ n := by exact_mod_cast hfull
  calc (m * 2 ^ e : ℚ≥0) < 2 ^ 53 * 2 ^ e := mul_lt_mul_of_pos_right hm (zpow_pos two_pos _)
    _ = 2 ^ 52 * 2 ^ (e + 1) := by
      rw [zpow_add₀ two_ne_zero, zpow_one, pow_succ]
      ring
    _ ≤ n * 2 ^ f := mul_le_mul' hn (zpow_le_zpow_right₀ one_le_two h)

/-- Comparing exponents, then significands, compares sizes. -/
theorem compare_size {m n : Nat} {e f : Int} (hm : m < 2 ^ 53) (hn : n < 2 ^ 53)
    (hfm : e = -1074 ∨ 2 ^ 52 ≤ m) (hfn : f = -1074 ∨ 2 ^ 52 ≤ n) (he : -1074 ≤ e)
    (hf : -1074 ≤ f) :
    (compare e f).then (compare m n) =
      compare ((m * 2 ^ e : ℚ≥0) : WithTop ℚ≥0) ((n * 2 ^ f : ℚ≥0) : WithTop ℚ≥0) := by
  rcases lt_trichotomy e f with h | rfl | h
  · have hsize := size_lt_of_exponent_lt hm (hfn.resolve_left (by omega)) h
    rw [compare_lt_iff_lt.mpr h, compare_lt_iff_lt.mpr (WithTop.coe_lt_coe.mpr hsize)]
    rfl
  · have hp : (0 : ℚ≥0) < 2 ^ e := zpow_pos two_pos _
    rw [compare_eq_iff_eq.mpr rfl]
    show compare m n = _
    rcases lt_trichotomy m n with h | rfl | h
    · have hsize := mul_lt_mul_of_pos_right (Nat.cast_lt.mpr h) hp
      rw [compare_lt_iff_lt.mpr h, compare_lt_iff_lt.mpr (WithTop.coe_lt_coe.mpr hsize)]
    · rw [compare_eq_iff_eq.mpr rfl, compare_eq_iff_eq.mpr rfl]
    · have hsize := mul_lt_mul_of_pos_right (Nat.cast_lt.mpr h) hp
      rw [compare_gt_iff_gt.mpr h, compare_gt_iff_gt.mpr (WithTop.coe_lt_coe.mpr hsize)]
  · have hsize := size_lt_of_exponent_lt hn (hfm.resolve_left (by omega)) h
    rw [compare_gt_iff_gt.mpr h, compare_gt_iff_gt.mpr (WithTop.coe_lt_coe.mpr hsize)]
    rfl

section
variable {x y : Float}

theorem compare_magnitude (hx : NonNegative x) (hy : NonNegative y) :
    x.toModel.unpack.compare y.toModel.unpack = some (compare (magnitude x) (magnitude y)) := by
  rcases hx.kinds with ⟨s, h⟩ | h | ⟨m, e, hm, h⟩
  · rw [magnitude_of_zero h, h]
    rcases hy.kinds with ⟨t, k⟩ | k | ⟨n, f, hn, k⟩
    · rw [magnitude_of_zero k, k, compare_eq_iff_eq.mpr rfl]
      rfl
    · rw [magnitude_of_infinity k, k, compare_lt_iff_lt.mpr WithTop.top_pos]
      rfl
    · rw [k, compare_lt_iff_lt.mpr (magnitude_pos_of_finite k)]
      rfl
  · rw [magnitude_of_infinity h, h]
    rcases hy.kinds with ⟨t, k⟩ | k | ⟨n, f, hn, k⟩
    · rw [magnitude_of_zero k, k, compare_gt_iff_gt.mpr WithTop.top_pos]
      rfl
    · rw [magnitude_of_infinity k, k, compare_eq_iff_eq.mpr rfl]
      rfl
    · rw [k, compare_gt_iff_gt.mpr (magnitude_lt_top_of_finite k)]
      rfl
  · rcases hy.kinds with ⟨t, k⟩ | k | ⟨n, f, hn, k⟩
    · rw [magnitude_of_zero k, h, k, compare_gt_iff_gt.mpr (magnitude_pos_of_finite h)]
      rfl
    · rw [magnitude_of_infinity k, h, k, compare_lt_iff_lt.mpr (magnitude_lt_top_of_finite h)]
      rfl
    · obtain ⟨hlm, hem, hfm⟩ := (kept_of_finite h).1.bounds
      obtain ⟨hln, hen, hfn⟩ := (kept_of_finite k).1.bounds
      rw [magnitude_of_finite h, magnitude_of_finite k, h, k]
      exact congrArg some (compare_size hlm hln hfm hfn hem hen)

theorem le_iff_magnitude (hx : NonNegative x) (hy : NonNegative y) :
    x ≤ y ↔ magnitude x ≤ magnitude y := by
  have hle : x ≤ y ↔ x.toModel.unpack.le y.toModel.unpack = true := decide_eq_true_iff
  rw [hle, UnpackedFloat.le, compare_magnitude hx hy]
  exact Ordering.isLE_iff_ne_gt.trans (compare_le_iff_le (a := magnitude x))

theorem lt_iff_magnitude (hx : NonNegative x) (hy : NonNegative y) :
    x < y ↔ magnitude x < magnitude y := by
  rw [lt_iff, UnpackedFloat.lt, compare_magnitude hx hy]
  exact beq_iff_eq.trans (Option.some_inj.trans compare_lt_iff_lt)

theorem beq_iff_magnitude (hx : NonNegative x) (hy : NonNegative y) :
    (x == y) = true ↔ magnitude x = magnitude y := by
  show (x.toModel.unpack.compare y.toModel.unpack == some .eq) = true ↔ _
  rw [compare_magnitude hx hy]
  exact beq_iff_eq.trans (Option.some_inj.trans compare_eq_iff_eq)

end

/-! ## The larger of two -/

section
variable {x y z : Float}

theorem nonNegative_of_le (h : 0.0 ≤ x) : NonNegative x := by
  have hle : (0.0 : Float).toModel.unpack.le x.toModel.unpack = true := decide_eq_true_iff.mp h
  constructor
  · show x.toModel.unpack.isNaN = false
    cases hx : x.toModel.unpack with
    | notANumber =>
      rw [hx] at hle
      cases hle
    | zero s => rfl
    | infinity s => rfl
    | finite s m e hm => rfl
  · cases hx : x.toModel.unpack with
    | notANumber => rfl
    | zero s => rfl
    | infinity s =>
      cases s with
      | positive => rfl
      | negative =>
        rw [hx] at hle
        cases hle
    | finite s m e hm =>
      cases s with
      | positive => rfl
      | negative =>
        rw [hx] at hle
        cases hle

theorem NonNegative.le_refl (hx : NonNegative x) : x ≤ x :=
  (le_iff_magnitude hx hx).mpr le_rfl

theorem NonNegative.le_trans (hx : NonNegative x) (hy : NonNegative y) (hz : NonNegative z)
    (hxy : x ≤ y) (hyz : y ≤ z) : x ≤ z :=
  (le_iff_magnitude hx hz).mpr
    (((le_iff_magnitude hx hy).mp hxy).trans ((le_iff_magnitude hy hz).mp hyz))

theorem lt_of_isBelowZero (hx : isBelowZero x.toModel.unpack = true) (hy : NonNegative y) :
    x < y := by
  rw [lt_iff]
  cases h : x.toModel.unpack with
  | notANumber =>
    rw [h] at hx
    cases hx
  | zero s =>
    rw [h] at hx
    cases hx
  | infinity s =>
    cases s with
    | positive =>
      rw [h] at hx
      cases hx
    | negative => rcases hy.kinds with ⟨t, k⟩ | k | ⟨n, f, hn, k⟩ <;> rw [k] <;> rfl
  | finite s m e hm =>
    cases s with
    | positive =>
      rw [h] at hx
      cases hx
    | negative => rcases hy.kinds with ⟨t, k⟩ | k | ⟨n, f, hn, k⟩ <;> rw [k] <;> rfl

/-- What is not below a number from zero on is from zero on itself. -/
theorem NonNegative.of_le (hx : NonNegative x) (h : x ≤ y) : NonNegative y := by
  have hle : x.toModel.unpack.le y.toModel.unpack = true := decide_eq_true_iff.mp h
  constructor
  · cases hy : y.toModel.unpack with
    | notANumber =>
      rw [hy] at hle
      cases hx' : x.toModel.unpack <;> rw [hx'] at hle <;> cases hle
    | zero s | infinity s | finite s m e hm =>
      show y.toModel.unpack.isNaN = false
      rw [hy]
      rfl
  · cases hbelow : isBelowZero y.toModel.unpack with
    | false => rfl
    | true =>
      have hlt := lt_iff.mp (lt_of_isBelowZero hbelow hx)
      rw [UnpackedFloat.lt, compare_swap] at hlt
      rw [UnpackedFloat.le] at hle
      cases hcompare : x.toModel.unpack.compare y.toModel.unpack with
      | none =>
        rw [hcompare] at hle
        cases hle
      | some o =>
        rw [hcompare] at hle hlt
        cases o with
        | lt | eq => cases hlt
        | gt => cases hle

/-- Whatever a double is, the larger of it and one from zero on is from there on. -/
theorem NonNegative.larger_right (hy : NonNegative y) (x : Float) :
    NonNegative (largerFloat x y) ∧ y ≤ largerFloat x y := by
  unfold largerFloat
  cases hnan : x.isNaN with
  | true => exact ⟨hy, hy.le_refl⟩
  | false =>
    rw [if_neg Bool.false_ne_true, hy.isNaN, if_neg Bool.false_ne_true]
    by_cases hlt : x < y
    · rw [if_pos hlt]
      exact ⟨hy, hy.le_refl⟩
    · rw [if_neg hlt]
      have hx : NonNegative x :=
        ⟨hnan, Bool.eq_false_iff.mpr fun hbelow => hlt (lt_of_isBelowZero hbelow hy)⟩
      rw [lt_iff_magnitude hx hy, not_lt] at hlt
      exact ⟨hx, (le_iff_magnitude hy hx).mpr hlt⟩

theorem NonNegative.le_larger (hx : NonNegative x) (hy : NonNegative y) :
    x ≤ largerFloat x y := by
  unfold largerFloat
  rw [hx.isNaN, if_neg Bool.false_ne_true, hy.isNaN, if_neg Bool.false_ne_true]
  by_cases hlt : x < y
  · rw [if_pos hlt]
    exact (le_iff_magnitude hx hy).mpr ((lt_iff_magnitude hx hy).mp hlt).le
  · rw [if_neg hlt]
    exact hx.le_refl

end

end ScoreSynth.Number
