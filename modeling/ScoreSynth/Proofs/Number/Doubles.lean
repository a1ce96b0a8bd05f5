import ScoreSynth.Proofs.Number.Packing
import ScoreSynth.Proofs.Number.Zeros

/-!
# Doubles from zero on

What a double stands for, its sign aside, is a rational or infinite. Rounding such a magnitude keeps
the order, and leaves what doubles stand for as it is. A double that is not below zero is counted by
its magnitude alone.
-/

open Float.Model
open Float.Model.UnpackedFloat

namespace ScoreSynth.Number

/-! ## Magnitudes -/

/-- What a number stands for but for its sign; nothing if it is none. -/
def extent : UnpackedFloat → WithTop ℚ≥0
  | .infinity _ => ⊤
  | .finite _ m e _ => (⟨m, e⟩ : Binary).size
  | .zero _ | .notANumber => 0

def magnitude (x : Float) : WithTop ℚ≥0 := extent x.toModel.unpack

def rounded (q : WithTop ℚ≥0) : WithTop ℚ≥0 :=
  q.recTopCoe ⊤ fun q => held (Binary.nearest .double q.num q.den).size

section
variable {p q : ℚ≥0}

theorem held_mono (h : p ≤ q) : held p ≤ held q := by
  unfold held
  by_cases hq : q < 2 ^ 1024
  · rw [if_pos hq, if_pos (h.trans_lt hq)]
    exact WithTop.coe_le_coe.mpr h
  · rw [if_neg hq]
    exact le_top

theorem size_nearest_mono {num den num' den' : Nat} (hd : 0 < den) (hd' : 0 < den')
    (h : (num : ℚ≥0) / den ≤ num' / den') :
    (Binary.nearest .double num den).size ≤ (Binary.nearest .double num' den').size := by
  rw [← NNRat.cast_le (K := ℚ), Binary.size_eq_value, Binary.size_eq_value]
  refine Binary.nearest_mono (by decide) hd hd' ?_
  exact_mod_cast h

@[simp] theorem rounded_top : rounded ⊤ = ⊤ := rfl

theorem rounded_mono : Monotone rounded := by
  intro p q h
  cases q with
  | top => exact le_top
  | coe q =>
    cases p with
    | top => exact absurd h (WithTop.not_top_le_coe q)
    | coe p =>
      refine held_mono (size_nearest_mono (NNRat.den_pos p) (NNRat.den_pos q) ?_)
      rw [NNRat.num_div_den, NNRat.num_div_den]
      exact WithTop.coe_le_coe.mp h

/-! ## Numbers in the form that rounding gives -/

variable {s : Sign} {u : UnpackedFloat}

theorem Kept.ofWidth (h : Kept s q u) : ∃ x : Binary, x.OfWidth .double ∧ x.size = q := by
  cases h with
  | zero => exact ⟨⟨0, -1074⟩, ⟨le_rfl, Nat.zero_le _, .inl rfl⟩, by simp [Binary.size]⟩
  | @finite m e _ hlt hle hfull =>
    refine ⟨⟨m, e⟩, ⟨hle, hlt.le, hfull.imp_right fun h => ?_⟩, rfl⟩
    show 2 ^ 53 ≤ 2 * m
    omega

/-- Such a number is not rounded again. -/
theorem Kept.rounded_eq (h : Kept s q u) : rounded q = held q := by
  obtain ⟨x, hx, rfl⟩ := h.ofWidth
  refine congrArg held ?_
  rw [← NNRat.cast_inj (α := ℚ), Binary.size_eq_value, Binary.size_eq_value]
  refine Binary.nearest_of_ofWidth hx (by decide) (NNRat.den_pos _) ?_
  rw [← Binary.size_eq_value]
  exact (NNRat.cast_def x.size).symm

theorem Kept.extent_eq (h : Kept s q u) : extent u = q := by
  cases h with
  | zero => rfl
  | finite => rfl

theorem Kept.bounds {t : Sign} {m : Nat} {e : Int} {hm : 0 < m} (h : Kept s q (.finite t m e hm)) :
    m < 2 ^ 53 ∧ -1074 ≤ e ∧ (e = -1074 ∨ 2 ^ 52 ≤ m) := by
  cases h with
  | finite _ hlt hle hfull => exact ⟨hlt, hle, hfull⟩

theorem two_pow_1024 {k : Nat} {e : Int} (h : k + e = 1024) :
    (2 : ℚ≥0) ^ 1024 = 2 ^ k * 2 ^ e := by
  rw [← zpow_natCast, ← zpow_natCast, ← zpow_add₀ two_ne_zero, h]
  rfl

theorem Kept.lt_iff {m : Nat} {e : Int} {hm : 0 < m} (h : Kept s q (.finite s m e hm)) :
    q < 2 ^ 1024 ↔ e ≤ 971 := by
  cases h with
  | finite _ hlt hle hfull =>
    constructor
    · intro h
      by_contra he
      have hm : (2 : ℚ≥0) ^ 52 ≤ m := by exact_mod_cast hfull.resolve_left (by omega)
      rw [two_pow_1024 (show (52 : Nat) + (972 : Int) = 1024 by rfl)] at h
      exact absurd h (not_lt.mpr (mul_le_mul' hm (zpow_le_zpow_right₀ one_le_two (by omega))))
    · intro he
      have hm : (m : ℚ≥0) < 2 ^ 53 := by exact_mod_cast hlt
      rw [two_pow_1024 (show (53 : Nat) + (971 : Int) = 1024 by rfl)]
      exact mul_lt_mul hm (zpow_le_zpow_right₀ one_le_two he) (zpow_pos two_pos _) zero_le

theorem Kept.unpack_pack (h : Kept s q u) :
    (Float.Model.pack u).unpack = if q < 2 ^ 1024 then u else .infinity s := by
  cases h with
  | zero =>
    rw [unpack_pack_zero, if_pos (by positivity)]
  | @finite m e hm hlt hle hfull =>
    have hiff := (Kept.finite (s := s) hm hlt hle hfull).lt_iff
    rw [unpack_pack_finite s hm hlt hle hfull]
    by_cases h : 971 < e
    · rw [if_pos h, if_neg (hiff.not.mpr (not_le.mpr h))]
    · rw [if_neg h, if_pos (hiff.mpr (not_lt.mp h))]

theorem Kept.magnitude_pack (h : Kept s q u) : magnitude (.ofModel (.pack u)) = held q := by
  show extent (Float.Model.pack u).unpack = held q
  rw [h.unpack_pack, held]
  split
  · exact h.extent_eq
  · rfl

theorem Kept.nonNegative_pack (h : Kept .positive q u) : NonNegative (.ofModel (.pack u)) := by
  have hu : u.isNaN = false ∧ isBelowZero u = false := by
    cases h with
    | zero => exact ⟨rfl, rfl⟩
    | finite => exact ⟨rfl, rfl⟩
  constructor
  · show (Float.Model.pack u).unpack.isNaN = false
    rw [h.unpack_pack]
    split
    · exact hu.1
    · rfl
  · show isBelowZero (Float.Model.pack u).unpack = false
    rw [h.unpack_pack]
    split
    · exact hu.2
    · rfl

end

/-! ## Doubles -/

/-- The kinds of double that are not below zero. -/
theorem NonNegative.kinds {x : Float} (h : NonNegative x) :
    (∃ s, x.toModel.unpack = .zero s) ∨ x.toModel.unpack = .infinity .positive ∨
      ∃ m e hm, x.toModel.unpack = .finite .positive m e hm := by
  obtain ⟨hnan, hbelow⟩ := h
  change x.toModel.unpack.isNaN = false at hnan
  cases hx : x.toModel.unpack with
  | notANumber =>
    rw [hx] at hnan
    cases hnan
  | zero s => exact .inl ⟨s, rfl⟩
  | infinity s =>
    cases s with
    | positive => exact .inr (.inl rfl)
    | negative =>
      rw [hx] at hbelow
      cases hbelow
  | finite s m e hm =>
    cases s with
    | positive => exact .inr (.inr ⟨m, e, hm, rfl⟩)
    | negative =>
      rw [hx] at hbelow
      cases hbelow

section
variable {x : Float}

theorem magnitude_of_zero {s : Sign} (h : x.toModel.unpack = .zero s) : magnitude x = 0 := by
  rw [magnitude, h]
  rfl

theorem magnitude_of_infinity {s : Sign} (h : x.toModel.unpack = .infinity s) :
    magnitude x = ⊤ := by
  rw [magnitude, h]
  rfl

theorem magnitude_ne_top (h : x.isInf = false) : magnitude x ≠ ⊤ := by
  change x.toModel.unpack.isInf = false at h
  unfold magnitude
  cases hx : x.toModel.unpack with
  | infinity s =>
    rw [hx] at h
    cases h
  | notANumber | zero s => exact WithTop.zero_ne_top
  | finite s m e hm => exact WithTop.coe_ne_top

section
variable {s : Sign} {m : Nat} {e : Int} {hm : 0 < m} (h : x.toModel.unpack = .finite s m e hm)
include h

theorem magnitude_of_finite : magnitude x = ((m * 2 ^ e : ℚ≥0) : WithTop ℚ≥0) := by
  rw [magnitude, h]
  rfl

theorem magnitude_pos_of_finite : 0 < magnitude x := by
  rw [magnitude_of_finite h]
  exact WithTop.coe_pos.mpr (mul_pos (by exact_mod_cast hm) (zpow_pos two_pos _))

theorem magnitude_lt_top_of_finite : magnitude x < ⊤ := by
  rw [magnitude_of_finite h]
  exact WithTop.coe_lt_top _

end

end

/-- What was taken out of bits goes back into them. -/
theorem pack_unpack_eq (x : Float) : .ofModel (.pack x.toModel.unpack) = x :=
  Float.toBits_inj.mp (UInt64.toBitVec_inj.mp (pack_unpack_of_valid x.toModel.valid))

theorem rounded_magnitude (x : Float) : rounded (magnitude x) = magnitude x := by
  have hzero : rounded 0 = 0 := by
    have h := (Kept.zero (s := .positive)).rounded_eq
    rwa [held, if_pos (by positivity)] at h
  unfold magnitude
  cases hx : x.toModel.unpack with
  | notANumber => exact hzero
  | zero s => exact hzero
  | infinity s => rfl
  | finite s m e hm =>
    obtain ⟨hkept, he⟩ := kept_of_finite hx
    rw [hkept.extent_eq, hkept.rounded_eq, held, if_pos (hkept.lt_iff.mpr he)]

theorem rounded_two_pow {k : Nat} (hk : k < 1024) :
    rounded ((2 ^ k : ℚ≥0) : WithTop ℚ≥0) = ((2 ^ k : ℚ≥0) : WithTop ℚ≥0) := by
  have hkept := Kept.finite (s := .positive) (m := 2 ^ 52) (e := (k : Int) - 52) (by decide)
    (by decide) (by omega) (.inr le_rfl)
  have hsize : ((2 ^ 52 : Nat) * 2 ^ ((k : Int) - 52) : ℚ≥0) = 2 ^ k := by
    rw [Nat.cast_pow, Nat.cast_ofNat, ← zpow_natCast, ← zpow_add₀ two_ne_zero, ← zpow_natCast]
    congr 1
    omega
  have hlt := hkept.lt_iff.mpr (by omega)
  rw [hsize] at hkept hlt
  rw [hkept.rounded_eq, held, if_pos hlt]

theorem rounded_le_two_pow {q : WithTop ℚ≥0} {k : Nat} (hk : k < 1024)
    (h : q ≤ ((2 ^ k : ℚ≥0) : WithTop ℚ≥0)) : rounded q ≤ ((2 ^ k : ℚ≥0) : WithTop ℚ≥0) :=
  (rounded_mono h).trans_eq (rounded_two_pow hk)

theorem two_pow_le_rounded {q : WithTop ℚ≥0} {k : Nat} (hk : k < 1024)
    (h : ((2 ^ k : ℚ≥0) : WithTop ℚ≥0) ≤ q) : ((2 ^ k : ℚ≥0) : WithTop ℚ≥0) ≤ rounded q :=
  (rounded_two_pow hk).symm.trans_le (rounded_mono h)

/-! ## Counts -/

def counted (q : WithTop ℚ≥0) : Nat := q.recTopCoe max64 fun q => min ⌊(q : ℚ) + 1 / 2⌋₊ max64

theorem counted_mono : Monotone counted := by
  intro p q h
  cases q with
  | top =>
    cases p with
    | top => exact le_rfl
    | coe p => exact min_le_right _ _
  | coe q =>
    cases p with
    | top => exact absurd h (WithTop.not_top_le_coe q)
    | coe p =>
      have hpq : (p : ℚ) ≤ q := by exact_mod_cast WithTop.coe_le_coe.mp h
      exact min_le_min_right _ (Nat.floor_mono (by linarith))

theorem counted_zero : counted 0 = 0 := by
  show min ⌊((0 : ℚ≥0) : ℚ) + 1 / 2⌋₊ max64 = 0
  norm_num

/-- What is no number counts as zero does. -/
theorem count_eq_counted {x : Float} (h : isBelowZero x.toModel.unpack = false) :
    count x = counted (magnitude x) := by
  unfold count
  change (if x.toModel.unpack.isNaN || isNegative x then 0 else
    if x.toModel.unpack.isInf then max64 else _) = _
  cases hx : x.toModel.unpack with
  | notANumber =>
    rw [magnitude, hx]
    exact counted_zero.symm
  | zero s =>
    have hround : (⟨0, -1074⟩ : Binary).round = 0 := by
      rw [Binary.round_eq_floor]
      norm_num [Binary.value]
    rw [magnitude_of_zero hx, counted_zero, ofFloat_of_zero hx, hround]
    show (if (false || isNegative x) = true then 0 else 0) = 0
    exact ite_self 0
  | infinity s =>
    cases s with
    | negative =>
      rw [hx] at h
      cases h
    | positive =>
      rw [magnitude_of_infinity hx, isNegative_of_signOf (bits_of_infinity hx)]
      rfl
  | finite s m e hm =>
    cases s with
    | negative =>
      rw [hx] at h
      cases h
    | positive =>
      rw [magnitude_of_finite hx, isNegative_of_signOf (bits_of_finite hx).1, ofFloat_of_finite hx,
        Binary.round_eq_floor, ← Binary.size_eq_value]
      rfl

end ScoreSynth.Number
