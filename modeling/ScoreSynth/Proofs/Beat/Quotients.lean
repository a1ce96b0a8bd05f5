import ScoreSynth.Proofs.Beat.Written
import ScoreSynth.Proofs.Number.Spelled

/-!
# Beats as doubles

The length in beats as a double, and the ticks that such a double comes to. Both ways keep the order
of lengths, and below 2^51 ticks the way back takes back the way there.
-/

namespace ScoreSynth.Beat

open Number

/-! ## There -/

section
variable (b : Beat)

theorem quotient_ofWidth : b.quotient.OfWidth .double :=
  Binary.ofWidth_nearest (by decide) _
    (Nat.mul_pos (Binary.ratio_pos _) (by decide))

theorem quotient_eq_nearest : b.quotient = .nearest .double (Binary.nearest .double b.ticks 1).ratio.1
    ((Binary.nearest .double b.ticks 1).ratio.2 * perBeat) := rfl

theorem ratio_quotient : ((Binary.nearest .double b.ticks 1).ratio.1 : ℚ) /
    ((Binary.nearest .double b.ticks 1).ratio.2 * perBeat : Nat) =
      (Binary.nearest .double b.ticks 1).value / 960 := by
  rw [Binary.ratio_div_value]
  rfl

theorem quotient_le : b.quotient.value ≤ 2 ^ (64 : Int) := by
  have hticks : (b.ticks : ℚ) / (1 : Nat) ≤ 2 ^ (64 : Int) := by
    have h : (b.ticks : ℚ) ≤ (max64 : Nat) := by exact_mod_cast b.ticks_le
    have hmax : ((max64 : Nat) : ℚ) ≤ 2 ^ (64 : Int) := by norm_num [max64]
    rw [Nat.cast_one, div_one]
    exact h.trans hmax
  have hn := Binary.nearest_le_zpow (w := .double) (by decide) (by decide) Nat.one_pos hticks
  rw [quotient_eq_nearest]
  refine Binary.nearest_le_zpow (by decide) (by decide)
    (Nat.mul_pos (Binary.ratio_pos _) (by decide)) ?_
  rw [ratio_quotient]
  have := Binary.value_nonneg (Binary.nearest .double b.ticks 1)
  linarith

variable {b}

theorem le_quotient (h : 0 < b.ticks) : (2 : ℚ) ^ (-10 : Int) ≤ b.quotient.value := by
  have hticks : (2 : ℚ) ^ (0 : Int) ≤ b.ticks / (1 : Nat) := by
    rw [zpow_zero, Nat.cast_one, div_one]
    exact_mod_cast h
  have hn := Binary.zpow_le_nearest (w := .double) (by decide) (by decide) Nat.one_pos hticks
  rw [quotient_eq_nearest]
  refine Binary.zpow_le_nearest (by decide) (by decide)
    (Nat.mul_pos (Binary.ratio_pos _) (by decide)) ?_
  rw [ratio_quotient]
  norm_num at hn ⊢
  linarith

theorem quotient_ordinary (h : 0 < b.ticks) : b.quotient.Ordinary := by
  have hlow := le_quotient h
  have hpos : 0 < b.quotient.significand := by
    rcases Nat.eq_zero_or_pos b.quotient.significand with h0 | hpos
    · rw [Binary.value, h0, Nat.cast_zero, zero_mul] at hlow
      norm_num at hlow
    · exact hpos
  exact b.quotient_ofWidth.ordinary hpos (b.quotient_le.trans (by norm_num))

theorem quotient_mono {a : Beat} (h : a.ticks ≤ b.ticks) :
    a.quotient.value ≤ b.quotient.value := by
  have hticks : (a.ticks : ℚ) / (1 : Nat) ≤ (b.ticks : ℚ) / (1 : Nat) := by
    have : (a.ticks : ℚ) ≤ b.ticks := by exact_mod_cast h
    simpa using this
  have h1 := Binary.nearest_mono (w := .double) (by decide) Nat.one_pos Nat.one_pos hticks
  rw [quotient_eq_nearest, quotient_eq_nearest]
  refine Binary.nearest_mono (by decide) (Nat.mul_pos (Binary.ratio_pos _) (by decide))
    (Nat.mul_pos (Binary.ratio_pos _) (by decide)) ?_
  rw [ratio_quotient, ratio_quotient]
  exact div_le_div_of_nonneg_right h1 (by norm_num)

end

/-! ## And back -/

section
variable {x y : Binary}

theorem ticks_ofQuotient (x : Binary) :
    (ofQuotient x).ticks = min ⌊(x.mulNat .double perBeat).value + 1 / 2⌋₊ max64 := by
  rw [ofQuotient, Binary.round_eq_floor]
  rfl

theorem ratio_mulNat (x : Binary) : ((x.ratio.1 * perBeat : Nat) : ℚ) / x.ratio.2 = x.value * 960 := by
  rw [Nat.cast_mul, mul_div_right_comm, x.ratio_value]
  rfl

theorem ofQuotient_mono (h : x.value ≤ y.value) : (ofQuotient x).ticks ≤ (ofQuotient y).ticks := by
  rw [ticks_ofQuotient, ticks_ofQuotient]
  have hm : (x.mulNat .double perBeat).value ≤ (y.mulNat .double perBeat).value := by
    refine Binary.nearest_mono (by decide) x.ratio_pos y.ratio_pos ?_
    rw [ratio_mulNat, ratio_mulNat]
    exact mul_le_mul_of_nonneg_right h (by norm_num)
  exact min_le_min_right _ (Nat.floor_mono (by linarith))

theorem ofQuotient_congr (h : x.value = y.value) : ofQuotient x = ofQuotient y :=
  ext_ticks (le_antisymm (ofQuotient_mono h.le) (ofQuotient_mono h.ge))

end

section
variable {a b : Beat}

/-- What is left of a length once it went through a double. -/
def reread (b : Beat) : Beat := ofQuotient b.quotient

theorem reread_zero : reread zero = zero := by decide +kernel

/-- Below 2^51 ticks both roundings together come to less than half a tick. -/
theorem reread_eq (h : b.ticks < 2 ^ 51) : b.reread = b := by
  rcases Nat.eq_zero_or_pos b.ticks with h0 | h0
  · rw [show b = zero from ext_ticks h0, reread_zero]
  obtain ⟨-, he, hq⟩ := quotient_spec h0 (h.trans (by norm_num))
  have htwo : (2 : ℚ) ^ b.quotient.exponent ≤ 2 ^ (-11 : Int) := zpow_le_zpow_right₀ one_le_two he
  norm_num at htwo
  obtain ⟨hql, hqu⟩ := abs_le.mp hq
  have hlt : (b.ticks : ℚ) < 2 ^ 51 := by exact_mod_cast h
  have hd := b.quotient.ratio_pos
  have hv := ratio_mulNat b.quotient
  have herr : |(b.quotient.mulNat .double perBeat).value -
      (b.quotient.ratio.1 * perBeat : Nat) / b.quotient.ratio.2| ≤
        2 ^ (b.quotient.mulNat .double perBeat).exponent / 2 :=
    Binary.nearest_error .double (b.quotient.ratio.1 * perBeat) hd
  have hexp : (b.quotient.mulNat .double perBeat).exponent ≤ -1 := by
    refine Binary.exponent_nearest_le hd (by decide) ?_
    have hw : Width.double.bits = 53 := rfl
    rw [hv, hw]
    norm_num
    linarith
  have hunit : (2 : ℚ) ^ (b.quotient.mulNat .double perBeat).exponent ≤ 2 ^ (-1 : Int) :=
    zpow_le_zpow_right₀ one_le_two hexp
  norm_num at hunit
  rw [hv] at herr
  obtain ⟨hel, heu⟩ := abs_le.mp herr
  have hfloor : ⌊(b.quotient.mulNat .double perBeat).value + 1 / 2⌋₊ = b.ticks := by
    have hnonneg := Binary.value_nonneg (b.quotient.mulNat .double perBeat)
    rw [Nat.floor_eq_iff (by linarith)]
    constructor <;> linarith
  refine ext_ticks ?_
  rw [reread, ticks_ofQuotient, hfloor]
  exact min_eq_left b.ticks_le

end

end ScoreSynth.Beat
