import ScoreSynth.Beat
import ScoreSynth.Proofs.Number.Signs

/-!
# Lengths in seconds

At every tempo, a length in seconds is a number from zero on, and a zero without a minus sign.
-/

namespace ScoreSynth.Beat

open Number

/-! ## Constants -/

theorem perBeat_spec : NonNegative 960.0 ∧ magnitude 960.0 = ((960 : ℚ≥0) : WithTop ℚ≥0) := by
  have h : (960.0 : Float).toModel.unpack = .finite .positive (960 * 2 ^ 43) (-43) (by decide) := rfl
  refine ⟨⟨rfl, rfl⟩, ?_⟩
  rw [magnitude_of_finite h]
  norm_num

theorem perMinute_spec : NonNegative 60.0 ∧ magnitude 60.0 = ((60 : ℚ≥0) : WithTop ℚ≥0) := by
  have h : (60.0 : Float).toModel.unpack = .finite .positive (60 * 2 ^ 47) (-47) (by decide) := rfl
  refine ⟨⟨rfl, rfl⟩, ?_⟩
  rw [magnitude_of_finite h]
  norm_num

/-! ## Lengths -/

section
variable (b : Beat) (tempo : Nat)

theorem magnitude_ticks : magnitude (Float.ofNat b.ticks) ≤ ((2 ^ 64 : ℚ≥0) : WithTop ℚ≥0) :=
  magnitude_ofNat_le (by decide) (b.ticks_le.trans (by decide))

/-- Beats are finite as a double, and so are the seconds they take at one beat a minute. -/
theorem beats_spec : NonNegative b.beats ∧
    magnitude b.beats ≤ ((2 ^ 64 : ℚ≥0) : WithTop ℚ≥0) := by
  have hticks := b.magnitude_ticks
  obtain ⟨p, hp⟩ := WithTop.ne_top_iff_exists.mp (hticks.trans_lt (WithTop.coe_lt_top _)).ne
  obtain ⟨hz, hdiv⟩ := div_spec (ofNat_spec b.ticks).1 perBeat_spec.1 hp.symm perBeat_spec.2
    (by norm_num)
  refine ⟨hz, hdiv.trans_le (rounded_le_two_pow (by decide) ?_)⟩
  rw [← hp] at hticks
  refine WithTop.coe_le_coe.mpr (le_trans ?_ (WithTop.coe_le_coe.mp hticks))
  exact div_le_self zero_le (by norm_num)

theorem minutes_spec : NonNegative (b.beats * 60.0) ∧ magnitude (b.beats * 60.0) ≠ ⊤ := by
  obtain ⟨hb, hle⟩ := b.beats_spec
  obtain ⟨p, hp⟩ := WithTop.ne_top_iff_exists.mp (hle.trans_lt (WithTop.coe_lt_top _)).ne
  obtain ⟨hz, hmul⟩ := mul_finite_spec hb perMinute_spec.1 hp.symm perMinute_spec.2
  refine ⟨hz, ne_top_of_le_ne_top (WithTop.coe_ne_top (a := 2 ^ 70)) ?_⟩
  rw [hmul]
  rw [← hp] at hle
  refine rounded_le_two_pow (by decide) (WithTop.coe_le_coe.mpr ?_)
  calc p * 60 ≤ 2 ^ 64 * 60 := mul_le_mul_left (WithTop.coe_le_coe.mp hle) _
    _ ≤ 2 ^ 70 := by norm_num

theorem seconds_of_ne_zero {tempo : Nat} (h : tempo ≠ 0) :
    (b.seconds tempo : Float) = b.beats * 60.0 / Float.ofNat tempo := if_neg h

theorem nonNegative_seconds : NonNegative (b.seconds tempo) := by
  by_cases h : tempo = 0
  · rw [seconds, if_pos h]
    exact nonNegative_zero
  · rw [b.seconds_of_ne_zero h]
    obtain ⟨hz, hfinite⟩ := b.minutes_spec
    exact hz.div (ofNat_spec tempo).1 hfinite (magnitude_ofNat_ne_zero (Nat.pos_of_ne_zero h))

theorem unsigned_seconds : Unsigned (b.seconds tempo) := by
  by_cases h : tempo = 0
  · rw [seconds, if_pos h]
    rfl
  · have hbeat : Unsigned 960.0 := rfl
    have hminute : Unsigned 60.0 := rfl
    rw [b.seconds_of_ne_zero h]
    exact (((unsigned_ofNat b.ticks).div hbeat).mul hminute).div (unsigned_ofNat tempo)

end

end ScoreSynth.Beat
