import ScoreSynth.Number.Shortest
import ScoreSynth.Proofs.Number.Value

/-!
# The shortest decimal reads back

The search for the fewest digits always finds a decimal, and what it finds is no farther than half a
unit from the value. A power of ten is compared with a power of two through the two convergents
59/196 and 28/93 of the logarithm, one below it and one above.
-/

namespace ScoreSynth.Number

/-! ## Powers of ten and of two -/

theorem ten_zpow_le_two_zpow {a b : Int} (hlow : 196 * a ≤ 59 * b) (hhigh : 93 * a ≤ 28 * b) :
    (10 : ℚ) ^ a ≤ 2 ^ b := by
  have ht : (0 : ℚ) < 10 ^ a := zpow_pos (by norm_num) a
  have hb := Binary.two_zpow_pos b
  rcases le_or_gt 0 a with ha | ha
  · rw [← pow_le_pow_iff_left₀ ht.le hb.le (show 59 ≠ 0 by decide)]
    calc ((10 : ℚ) ^ a) ^ 59 = (10 ^ 59) ^ a := by
          rw [← zpow_natCast, ← zpow_natCast, ← zpow_mul, ← zpow_mul, mul_comm]
      _ ≤ (2 ^ 196) ^ a := zpow_le_zpow_left₀ ha (by positivity) (by norm_num)
      _ = 2 ^ (196 * a) := by rw [← zpow_natCast, ← zpow_mul]; rfl
      _ ≤ 2 ^ (b * 59) := zpow_le_zpow_right₀ one_le_two (by omega)
      _ = (2 ^ b) ^ 59 := by rw [zpow_mul]; rfl
  · rw [← pow_le_pow_iff_left₀ ht.le hb.le (show 28 ≠ 0 by decide)]
    have h : ((2 : ℚ) ^ 93) ^ (-a) ≤ (10 ^ 28) ^ (-a) :=
      zpow_le_zpow_left₀ (by omega) (by positivity) (by norm_num)
    calc ((10 : ℚ) ^ a) ^ 28 = ((10 ^ 28) ^ (-a))⁻¹ := by
          rw [← zpow_neg, neg_neg, ← zpow_natCast, ← zpow_natCast, ← zpow_mul, ← zpow_mul, mul_comm]
      _ ≤ ((2 ^ 93) ^ (-a))⁻¹ := inv_anti₀ (zpow_pos (by positivity) _) h
      _ = 2 ^ (93 * a) := by rw [← zpow_neg, neg_neg, ← zpow_natCast, ← zpow_mul]; rfl
      _ ≤ 2 ^ (b * 28) := zpow_le_zpow_right₀ one_le_two (by omega)
      _ = (2 ^ b) ^ 28 := by rw [zpow_mul]; rfl

theorem two_zpow_le_ten_zpow {a b : Int} (hlow : 59 * b ≤ 196 * a) (hhigh : 28 * b ≤ 93 * a) :
    (2 : ℚ) ^ b ≤ 10 ^ a := by
  have h := ten_zpow_le_two_zpow (a := -a) (b := -b) (by omega) (by omega)
  rw [zpow_neg, zpow_neg] at h
  exact (inv_le_inv₀ (zpow_pos (by norm_num) a) (Binary.two_zpow_pos b)).mp h

theorem ten_zpow_pos (k : Int) : (0 : ℚ) < 10 ^ k := zpow_pos (by norm_num) k

namespace Binary

structure Ordinary (x : Binary) : Prop where
  pos : 0 < x.significand
  le : x.significand ≤ 2 ^ 53
  low : -2000 ≤ x.exponent
  high : x.exponent ≤ 2000

section
variable {w : Width} {x : Binary} {d : Nat} {k : Int}

theorem decimalRatio_pos (d : Nat) (k : Int) : 0 < (decimalRatio d k).2 := by
  unfold decimalRatio
  split
  · exact Nat.pow_pos (by decide)
  · exact Nat.one_pos

theorem decimalRatio_value (d : Nat) (k : Int) :
    ((decimalRatio d k).1 : ℚ) / (decimalRatio d k).2 = d * 10 ^ k := by
  unfold decimalRatio
  split
  · rename_i h
    simp only [tenTo_eq, cast_zpow_neg_natAbs h, zpow_neg, Nat.cast_ofNat, div_inv_eq_mul]
  · rename_i h
    simp only [tenTo_eq, Nat.cast_mul, cast_div_zpow_natAbs (not_lt.mp h), Nat.cast_ofNat,
      Nat.cast_one, div_one]

theorem decimalRatio_one (k : Int) :
    ((decimalRatio 1 k).1 : ℚ) / (decimalRatio 1 k).2 = 10 ^ k := by
  rw [decimalRatio_value, Nat.cast_one, one_mul]

/-! ## The place of the point -/

theorem value_pos (hx : 0 < x.significand) : 0 < x.value :=
  mul_pos (by exact_mod_cast hx) (two_zpow_pos _)

theorem value_nonneg (x : Binary) : 0 ≤ x.value :=
  mul_nonneg (Nat.cast_nonneg _) (two_zpow_pos _).le

theorem climb_spec {n d : Nat} (hd : 0 < d) (fuel : Nat) (k : Int) :
    (climb n d fuel k = k + fuel ∨ (n : ℚ) / d < 10 ^ climb n d fuel k) ∧
      (climb n d fuel k = k ∨ (10 : ℚ) ^ (climb n d fuel k - 1) ≤ n / d) := by
  have hdq : (0 : ℚ) < d := by exact_mod_cast hd
  induction fuel generalizing k with
  | zero => simp [climb]
  | succ fuel ih =>
    have hp : (0 : ℚ) < (decimalRatio 1 k).2 := by exact_mod_cast decimalRatio_pos 1 k
    have hlt : n * (decimalRatio 1 k).2 < (decimalRatio 1 k).1 * d ↔ (n : ℚ) / d < 10 ^ k := by
      rw [← decimalRatio_one, div_lt_div_iff₀ hdq hp]
      exact_mod_cast Iff.rfl
    simp only [climb]
    split
    · rename_i h
      exact ⟨.inr (hlt.mp h), .inl rfl⟩
    · rename_i h
      obtain ⟨hu, hl⟩ := ih (k + 1)
      refine ⟨hu.imp_left fun he => by rw [he]; push_cast; ring, .inr ?_⟩
      rcases hl with he | hl
      · rw [he, add_sub_cancel_right]
        exact le_of_not_gt fun hc => h (hlt.mpr hc)
      · exact hl

theorem Ordinary.value_le (hx : x.Ordinary) : x.value ≤ 2 ^ 53 * 2 ^ x.exponent :=
  mul_le_mul_of_nonneg_right (by exact_mod_cast hx.le) (two_zpow_pos _).le

theorem log2_ratio_bounds (hx : x.Ordinary) :
    (x.ratio.1.log2 : Int) - x.ratio.2.log2 ≤ 2100 ∧
      -2100 ≤ (x.ratio.1.log2 : Int) - x.ratio.2.log2 := by
  obtain ⟨hl, hu⟩ := log2_div_bounds (ratio_num_pos (value_pos hx.pos)) x.ratio_pos
  rw [ratio_value] at hl hu
  have h1 : x.value ≤ 2 ^ (x.exponent + 53) := by
    rw [zpow_add₀ two_ne_zero, mul_comm]
    exact hx.value_le
  have h2 : (2 : ℚ) ^ x.exponent ≤ x.value :=
    le_mul_of_one_le_left (two_zpow_pos _).le (by exact_mod_cast hx.pos)
  have h3 := (zpow_le_zpow_iff_right₀ (one_lt_two : (1 : ℚ) < 2)).mp (hl.trans h1)
  have h4 := (zpow_lt_zpow_iff_right₀ (one_lt_two : (1 : ℚ) < 2)).mp (h2.trans_lt hu)
  have := hx.low
  have := hx.high
  omega

/-- The value has its leading digit just after the point. -/
theorem decimalPoint_spec (hx : x.Ordinary) :
    (10 : ℚ) ^ (x.decimalPoint - 1) ≤ x.value ∧ x.value < 10 ^ x.decimalPoint := by
  obtain ⟨hl, hu⟩ := log2_div_bounds (ratio_num_pos (value_pos hx.pos)) x.ratio_pos
  rw [ratio_value] at hl hu
  have hb := log2_ratio_bounds hx
  obtain ⟨hcu, hcl⟩ := climb_spec (n := x.ratio.1) x.ratio_pos 8
    (((x.ratio.1.log2 : Int) - x.ratio.2.log2) * 30103 / 100000 - 1)
  rw [ratio_value] at hcu hcl
  have hp : x.decimalPoint = climb x.ratio.1 x.ratio.2 8
    (((x.ratio.1.log2 : Int) - x.ratio.2.log2) * 30103 / 100000 - 1) := rfl
  rw [← hp] at hcu hcl
  generalize (x.ratio.1.log2 : Int) - x.ratio.2.log2 = l at *
  constructor
  · rcases hcl with he | h
    · exact (ten_zpow_le_two_zpow (by omega) (by omega)).trans hl
    · exact h
  · rcases hcu with he | h
    · refine hu.trans_le (two_zpow_le_ten_zpow ?_ ?_) <;> push_cast at he <;> omega
    · exact h

/-! ## Reading back -/

theorem readsBack_iff : readsBack w x d k = true ↔
    if x.significand % 2 = 0 then
      ((4 * x.significand - quartersBelow w x : Nat) : ℚ) * 2 ^ (x.exponent - 2) ≤ d * 10 ^ k ∧
        (d : ℚ) * 10 ^ k ≤ (4 * x.significand + 2 : Nat) * 2 ^ (x.exponent - 2)
    else
      ((4 * x.significand - quartersBelow w x : Nat) : ℚ) * 2 ^ (x.exponent - 2) < d * 10 ^ k ∧
        (d : ℚ) * 10 ^ k < (4 * x.significand + 2 : Nat) * 2 ^ (x.exponent - 2) := by
  have hm : (0 : ℚ) < (decimalRatio d k).2 := by exact_mod_cast decimalRatio_pos d k
  have hu : (0 : ℚ) < (ratio ⟨1, x.exponent - 2⟩).2 := by exact_mod_cast ratio_pos _
  have hr : ((ratio ⟨1, x.exponent - 2⟩).1 : ℚ) / (ratio ⟨1, x.exponent - 2⟩).2 =
      2 ^ (x.exponent - 2) := by
    rw [ratio_value]; simp [value]
  rw [← decimalRatio_value, ← hr]
  simp only [← mul_div_assoc, div_le_div_iff₀ hu hm, div_le_div_iff₀ hm hu,
    div_lt_div_iff₀ hu hm, div_lt_div_iff₀ hm hu]
  unfold readsBack
  simp only
  split
  · rw [Bool.and_eq_true, decide_eq_true_iff, decide_eq_true_iff]
    exact_mod_cast Iff.rfl
  · rw [Bool.and_eq_true, decide_eq_true_iff, decide_eq_true_iff]
    exact_mod_cast Iff.rfl

theorem quartersBelow_bounds (w : Width) (x : Binary) :
    1 ≤ quartersBelow w x ∧ quartersBelow w x ≤ 2 := by
  unfold quartersBelow
  split <;> decide

theorem value_eq_quarters (x : Binary) :
    x.value = (4 * x.significand : Nat) * 2 ^ (x.exponent - 2) := by
  unfold value
  rw [zpow_sub₀ two_ne_zero]
  push_cast
  ring

theorem zpow_eq_quarters (e : Int) : (2 : ℚ) ^ e = 4 * 2 ^ (e - 2) := by
  rw [zpow_sub₀ two_ne_zero]
  ring

theorem cast_quarters (hx : 0 < x.significand) :
    ((4 * x.significand - quartersBelow w x : Nat) : ℚ) =
      4 * x.significand - quartersBelow w x := by
  have := (quartersBelow_bounds w x).2
  rw [Nat.cast_sub (by omega)]
  push_cast
  rfl

theorem readsBack_error (hx : 0 < x.significand) (h : readsBack w x d k = true) :
    |(d : ℚ) * 10 ^ k - x.value| ≤ 2 ^ x.exponent / 2 := by
  have hp := two_zpow_pos (x.exponent - 2)
  have hq : (quartersBelow w x : ℚ) ≤ 2 := by exact_mod_cast (quartersBelow_bounds w x).2
  have hb := mul_le_mul_of_nonneg_right hq hp.le
  rw [readsBack_iff, cast_quarters hx] at h
  rw [value_eq_quarters, zpow_eq_quarters x.exponent, abs_le]
  push_cast at h ⊢
  split at h
  · constructor <;> linarith [h.1, h.2]
  · constructor <;> linarith [h.1, h.2]

theorem readsBack_of_near (hx : 0 < x.significand)
    (h : |(d : ℚ) * 10 ^ k - x.value| < 2 ^ x.exponent / 4) : readsBack w x d k = true := by
  have hp := two_zpow_pos (x.exponent - 2)
  have hq : (1 : ℚ) ≤ quartersBelow w x := by exact_mod_cast (quartersBelow_bounds w x).1
  have hb := mul_le_mul_of_nonneg_right hq hp.le
  rw [value_eq_quarters, zpow_eq_quarters x.exponent, abs_lt] at h
  rw [readsBack_iff, cast_quarters hx]
  push_cast at h ⊢
  obtain ⟨hl, hu⟩ := h
  split <;> constructor <;> linarith

/-! ## The search -/

theorem onGrid_eq_some {tieUp : Bool} (h : onGrid w tieUp x k = some d) :
    d ≠ 0 ∧ readsBack w x d k = true := by
  unfold onGrid at h
  simp only at h
  split at h
  · rename_i hb
    simp only [Bool.and_eq_true, decide_eq_true_eq, ne_eq] at hb
    obtain ⟨⟨hne, hbelow⟩, habove⟩ := hb
    obtain rfl := Option.some.inj h
    split
    · exact ⟨Nat.succ_ne_zero _, habove⟩
    · exact ⟨hne, hbelow⟩
  · split at h
    · rename_i hb
      simp only [Bool.and_eq_true, decide_eq_true_eq, ne_eq] at hb
      obtain rfl := Option.some.inj h
      exact hb
    · split at h
      · rename_i habove
        obtain rfl := Option.some.inj h
        exact ⟨Nat.succ_ne_zero _, habove⟩
      · exact absurd h nofun

theorem grid_bounds (x : Binary) (k : Int) :
    let below := x.ratio.1 * (decimalRatio 1 k).2 / (x.ratio.2 * (decimalRatio 1 k).1)
    (below : ℚ) * 10 ^ k ≤ x.value ∧ x.value < (below + 1) * 10 ^ k := by
  have hk := ten_zpow_pos k
  have hv : ((x.ratio.1 * (decimalRatio 1 k).2 : Nat) : ℚ) / (x.ratio.2 * (decimalRatio 1 k).1 : Nat)
      = x.value / 10 ^ k := by
    rw [← decimalRatio_one, ← ratio_value, div_div_div_eq]
    push_cast
    rfl
  have hl := Nat.floor_le (R := ℚ) (div_nonneg x.value_nonneg hk.le)
  have hu := Nat.lt_floor_add_one (R := ℚ) (x.value / 10 ^ k)
  rw [← hv, Nat.floor_div_eq_div, hv, le_div_iff₀ hk] at hl
  rw [← hv, Nat.floor_div_eq_div, hv, div_lt_iff₀ hk] at hu
  exact ⟨hl, hu⟩

/-- A grid with a step below a quarter of a unit has a point that reads back. -/
theorem isSome_onGrid (w : Width) (tieUp : Bool) (hx : 0 < x.significand)
    (hk : (10 : ℚ) ^ k < 2 ^ x.exponent / 4) : (onGrid w tieUp x k).isSome := by
  -- the grid point above is at most one step away
  have habove : readsBack w x
      (x.ratio.1 * (decimalRatio 1 k).2 / (x.ratio.2 * (decimalRatio 1 k).1) + 1) k = true := by
    obtain ⟨hl, hu⟩ := grid_bounds x k
    have hk0 := ten_zpow_pos k
    refine readsBack_of_near hx ?_
    push_cast
    rw [abs_lt]
    constructor <;> linarith
  unfold onGrid
  simp only [habove]
  split
  · rfl
  · split <;> rfl

theorem shortest_spec (w : Width) (tieUp : Bool) (hx : x.Ordinary) : ∃ d k,
    x.shortest w tieUp = ofDecimal d k ∧ d ≠ 0 ∧ readsBack w x d k = true ∧
      x.decimalPoint - 20 ≤ k ∧ k < x.decimalPoint := by
  have hlast : (onGrid w tieUp x (x.decimalPoint - (19 : Nat) - 1)).isSome := by
    refine isSome_onGrid w tieUp hx.pos ?_
    have hp := (decimalPoint_spec hx).1
    have hb := hx.value_le
    have hsplit : (10 : ℚ) ^ (x.decimalPoint - (19 : Nat) - 1) =
        10 ^ (x.decimalPoint - 1) / 10 ^ 19 := by
      rw [← zpow_natCast, ← zpow_sub₀ (by norm_num)]
      congr 1
      push_cast
      ring
    have := two_zpow_pos x.exponent
    rw [hsplit, div_lt_iff₀ (by positivity)]
    linarith
  have hfound : ((List.range 20).findSome? fun (n : Nat) =>
      (onGrid w tieUp x (x.decimalPoint - n - 1)).map
        fun d => ofDecimal d (x.decimalPoint - n - 1)).isSome := by
    rw [List.isSome_findSome?, List.any_eq_true]
    exact ⟨19, by simp, by simpa using hlast⟩
  obtain ⟨digits, hs⟩ := Option.isSome_iff_exists.mp hfound
  obtain ⟨n, hn, hg⟩ := List.exists_of_findSome?_eq_some hs
  obtain ⟨d, hd, rfl⟩ := Option.map_eq_some_iff.mp hg
  obtain ⟨hne, hback⟩ := onGrid_eq_some hd
  refine ⟨d, x.decimalPoint - n - 1, ?_, hne, hback, ?_, ?_⟩
  · unfold shortest
    simp only
    rw [hs, Option.getD_some]
  · rw [List.mem_range] at hn
    omega
  · omega

end

end Binary

end ScoreSynth.Number
