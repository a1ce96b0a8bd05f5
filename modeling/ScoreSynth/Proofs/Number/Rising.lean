import ScoreSynth.Proofs.Number.Operations

/-!
# Sums that do not fall

A finite double from zero on can be added to any double, also to one below zero or to none at all,
and the sum is not behind it: rounding keeps the order on both sides of zero.
-/

open Float.Model
open Float.Model.UnpackedFloat

namespace ScoreSynth.Number

/-! ## Order below zero -/

section
variable {x y : Float}

theorem kinds_of_isBelowZero (h : isBelowZero x.toModel.unpack = true) :
    x.toModel.unpack = .infinity .negative ∨
      ∃ m e hm, x.toModel.unpack = .finite .negative m e hm := by
  cases hx : x.toModel.unpack with
  | notANumber => simp [hx, isBelowZero] at h
  | zero s => simp [hx, isBelowZero] at h
  | infinity s =>
    cases s with
    | positive => simp [hx, isBelowZero] at h
    | negative => exact .inl rfl
  | finite s m e hm =>
    cases s with
    | positive => simp [hx, isBelowZero] at h
    | negative => exact .inr ⟨m, e, hm, rfl⟩

theorem lt_iff_of_isBelowZero (hx : isBelowZero x.toModel.unpack = true)
    (hy : isBelowZero y.toModel.unpack = true) : x < y ↔ magnitude y < magnitude x := by
  rw [lt_iff]
  rcases kinds_of_isBelowZero hx with h | ⟨m, e, hm, h⟩
  · rcases kinds_of_isBelowZero hy with k | ⟨n, f, hn, k⟩
    · rw [magnitude_of_infinity h, magnitude_of_infinity k, h, k]
      exact iff_of_false Bool.false_ne_true (lt_irrefl _)
    · rw [magnitude_of_infinity h, h, k]
      exact iff_of_true rfl (magnitude_lt_top_of_finite k)
  · rcases kinds_of_isBelowZero hy with k | ⟨n, f, hn, k⟩
    · rw [magnitude_of_infinity k, h, k]
      exact iff_of_false Bool.false_ne_true not_top_lt
    · obtain ⟨hlm, hem, hfm⟩ := (kept_of_finite h).1.bounds
      obtain ⟨hln, hen, hfn⟩ := (kept_of_finite k).1.bounds
      rw [magnitude_of_finite h, magnitude_of_finite k, h, k, UnpackedFloat.lt,
        UnpackedFloat.compare, compare_size hlm hln hfm hfn hem hen, beq_iff_eq, Option.some_inj,
        Ordering.swap_eq_lt]
      exact compare_gt_iff_gt

theorem not_lt_of_not_below (hy : isBelowZero y.toModel.unpack = false)
    (hx : isBelowZero x.toModel.unpack = true) : ¬ y < x := by
  intro hlt
  rw [isBelowZero_of_lt (lt_iff.mp hlt) hx] at hy
  cases hy

end

/-! ## Sums -/

theorem Kept.isNaN_pack {s : Sign} {q : ℚ≥0} {u : UnpackedFloat} (h : Kept s q u) :
    (Float.ofModel (.pack u)).isNaN = false := by
  show (Float.Model.pack u).unpack.isNaN = false
  rw [h.unpack_pack]
  split
  · cases h <;> rfl
  · rfl

section
variable {m n : Nat} (e f : Int) (hm : 0 < m) (hn : 0 < n)

/-- A number below zero and one above it add up to zero, to a number above it, or to a smaller
number below it, rounded. -/
theorem add_opposite :
    (.add .binary64 (.finite .negative m e hm) (.finite .positive n f hn) =
        (.zero .positive : UnpackedFloat)) ∨
      (∃ q, Kept .positive q
        (.add .binary64 (.finite .negative m e hm) (.finite .positive n f hn))) ∨
      Kept .negative (nearestDouble (m * 2 ^ e - n * 2 ^ f)).size
        (.add .binary64 (.finite .negative m e hm) (.finite .positive n f hn)) := by
  have ha := decreaseExponent_size m (min_le_left e f)
  have hb := decreaseExponent_size n (min_le_right e f)
  have hadd : UnpackedFloat.add .binary64 (.finite .negative m e hm) (.finite .positive n f hn) =
      UnpackedFloat.normalize .binary64 (-((decreaseExponent m e (min e f)).1 : Int) +
        ((decreaseExponent n f (min e f)).1 : Int)) (min e f) .positive := rfl
  rw [hadd, ← ha, ← hb]
  generalize (decreaseExponent m e (min e f)).1 = a
  generalize (decreaseExponent n f (min e f)).1 = b
  generalize min e f = t
  have hp : (0 : ℚ≥0) < 2 ^ t := zpow_pos two_pos t
  rcases lt_trichotomy a b with h | rfl | h
  · right; left
    have hc : compare (-(a : Int) + b) 0 = .gt := compare_gt_iff_gt.mpr (by omega)
    have hpos : 0 < (-(a : Int) + b).toNat := by omega
    rw [UnpackedFloat.normalize, hc]
    exact ⟨_, kept_round_of_pos hpos rfl⟩
  · left
    rw [UnpackedFloat.normalize, Int.add_left_neg]
    rfl
  · right; right
    have hc : compare (-(a : Int) + b) 0 = .lt := compare_lt_iff_lt.mpr (by omega)
    have hab : (-(-(a : Int) + b)).toNat = a - b := by omega
    have hsize : ((a * 2 ^ t - b * 2 ^ t : ℚ≥0)) = (a - b : Nat) * 2 ^ t := by
      rw [← tsub_mul, Nat.cast_tsub]
    have hpos : (0 : ℚ≥0) < (a - b : Nat) * 2 ^ t :=
      mul_pos (by exact_mod_cast Nat.sub_pos_of_lt h) hp
    rw [UnpackedFloat.normalize, hc, hsize]
    show Kept .negative _ (UnpackedFloat.round .binary64 .negative (-(-(a : Int) + b)).toNat t)
    rw [hab]
    refine kept_round .negative (Nat.sub_pos_of_lt h) (NNRat.num_pos.mpr hpos) (NNRat.den_pos _) ?_
    rw [← NNRat.cast_def, NNRat.cast_mul, NNRat.cast_natCast, NNRat.cast_zpow]
    rfl

end

section
variable {x y : Float}

theorem add_not_lt_of_opposite {m n : Nat} {e f : Int} {hm : 0 < m} {hn : 0 < n}
    (hx : x.toModel.unpack = .finite .negative m e hm)
    (hy : y.toModel.unpack = .finite .positive n f hn) :
    (x + y).isNaN = false ∧ ¬ x + y < x := by
  have hbelow : isBelowZero x.toModel.unpack = true := by rw [hx]; rfl
  rw [add_eq, hx, hy]
  rcases add_opposite e f hm hn with h | ⟨q, h⟩ | h
  · rw [h]
    exact ⟨rfl, not_lt_of_not_below rfl hbelow⟩
  · exact ⟨h.isNaN_pack, not_lt_of_not_below h.nonNegative_pack.not_below hbelow⟩
  · refine ⟨h.isNaN_pack, ?_⟩
    have hle := calc
      magnitude (.ofModel (.pack (.add .binary64 (.finite .negative m e hm)
          (.finite .positive n f hn)))) = rounded ((m * 2 ^ e - n * 2 ^ f : ℚ≥0) : WithTop ℚ≥0) :=
        h.magnitude_pack
      _ ≤ rounded ((m * 2 ^ e : ℚ≥0) : WithTop ℚ≥0) :=
        rounded_mono (WithTop.coe_le_coe.mpr tsub_le_self)
      _ = magnitude x := by rw [← magnitude_of_finite hx, rounded_magnitude]
    cases hz : isBelowZero (Float.ofModel (.pack (.add .binary64 (.finite .negative m e hm)
        (.finite .positive n f hn)))).toModel.unpack with
    | false => exact not_lt_of_not_below hz hbelow
    | true =>
      rw [lt_iff_of_isBelowZero hz hbelow, not_lt]
      exact hle

theorem NonNegative.larger_add (hx : NonNegative x) (hy : NonNegative y) :
    largerFloat (x + y) x = x + y := by
  have hle := hx.le_add hy
  unfold largerFloat
  rw [(hx.add hy).isNaN, hx.isNaN, if_neg Bool.false_ne_true, if_neg Bool.false_ne_true, if_neg]
  rw [lt_iff_magnitude (hx.add hy) hx, not_lt]
  exact (le_iff_magnitude hx (hx.add hy)).mp hle

theorem larger_self (x : Float) : largerFloat x x = x := by
  unfold largerFloat
  split_ifs <;> rfl

theorem unpack_of_isNaN (h : x.isNaN = true) : x.toModel.unpack = .notANumber := by
  change x.toModel.unpack.isNaN = true at h
  cases hx : x.toModel.unpack with
  | notANumber => rfl
  | _ => rw [hx] at h; cases h

/-- Of a sum with a finite double from zero on and the other summand, the sum is the larger. -/
theorem larger_add (x : Float) (hy : NonNegative y) (hfinite : y.isInf = false) :
    largerFloat (x + y) x = x + y := by
  -- infinities and what is no number take up the other summand
  have hself : .add .binary64 x.toModel.unpack y.toModel.unpack = x.toModel.unpack →
      largerFloat (x + y) x = x + y := by
    intro h
    have hxy : x + y = x := by rw [add_eq, h, pack_unpack_eq]
    rw [hxy, larger_self]
  have hinfinite : y.toModel.unpack ≠ .infinity .positive := by
    intro h
    change y.toModel.unpack.isInf = false at hfinite
    rw [h] at hfinite
    cases hfinite
  cases hb : isBelowZero x.toModel.unpack with
  | false =>
    cases hnan : x.isNaN with
    | false => exact NonNegative.larger_add ⟨hnan, hb⟩ hy
    | true =>
      apply hself
      rw [unpack_of_isNaN hnan]
      rfl
  | true =>
    rcases kinds_of_isBelowZero hb with h | ⟨m, e, hm, h⟩
    · apply hself
      rcases hy.kinds with ⟨t, k⟩ | k | ⟨n, f, hn, k⟩
      · rw [h, k]; rfl
      · exact absurd k hinfinite
      · rw [h, k]; rfl
    · rcases hy.kinds with ⟨t, k⟩ | k | ⟨n, f, hn, k⟩
      · apply hself
        rw [h, k]; rfl
      · exact absurd k hinfinite
      · obtain ⟨hsum, hlt⟩ := add_not_lt_of_opposite h k
        have hnan : x.isNaN = false := by
          show x.toModel.unpack.isNaN = false
          rw [h]; rfl
        unfold largerFloat
        rw [hsum, hnan, if_neg Bool.false_ne_true, if_neg Bool.false_ne_true, if_neg hlt]

end

end ScoreSynth.Number
