import ScoreSynth.Proofs.Beat.Quotients
import ScoreSynth.Proofs.Beat.Seconds
import ScoreSynth.Proofs.Number.Repacked

/-!
# Lengths worked out by the machine

The machine's own division gives the double that a length in beats is rounded to, so a longer length
never gives a smaller one. A larger finite double never comes to fewer ticks.
-/

namespace ScoreSynth.Beat

open Number

section
variable (b : Beat)

theorem beats_ne_top : magnitude b.beats ≠ ⊤ :=
  (b.beats_spec.2.trans_lt (WithTop.coe_lt_top _)).ne

theorem isInf_beats : Float.isInf b.beats = false := by
  have hfinite := b.beats_ne_top
  show (b.beats : Float).toModel.unpack.isInf = false
  rcases b.beats_spec.1.kinds with ⟨s, h⟩ | h | ⟨m, e, hm, h⟩
  · rw [h]
    rfl
  · exact absurd (magnitude_of_infinity h) hfinite
  · rw [h]
    rfl

theorem unsigned_beats : Unsigned b.beats := by
  have hbeat : Unsigned 960.0 := rfl
  exact (unsigned_ofNat b.ticks).div hbeat

theorem value_beats : (Binary.ofFloat b.beats).value = b.quotient.value := by
  obtain ⟨p, hp⟩ := WithTop.ne_top_iff_exists.mp
    (b.magnitude_ticks.trans_lt (WithTop.coe_lt_top _)).ne
  have hticks : (Binary.nearest .double b.ticks 1).value = p := by
    refine value_nearest_of_rounded Nat.one_pos ?_ ((ofNat_spec b.ticks).2.symm.trans hp.symm)
    rw [Nat.cast_one, div_one]
    rfl
  have hbeats : rounded ((p / 960 : ℚ≥0) : WithTop ℚ≥0) = (Binary.ofFloat b.beats).size := by
    rw [← magnitude_ofFloat b.beats_spec.1 b.beats_ne_top]
    exact (div_spec (ofNat_spec b.ticks).1 perBeat_spec.1 hp.symm perBeat_spec.2
      (by norm_num)).2.symm
  rw [← Binary.size_eq_value, quotient_eq_nearest]
  refine (value_nearest_of_rounded (Nat.mul_pos (Binary.ratio_pos _) (by decide)) ?_ hbeats).symm
  rw [ratio_quotient, hticks]
  norm_cast

end

/-! ## Ticks of a double -/

section
variable {x y : Float}

theorem ofFloat_of_nonNegative (hx : NonNegative x) (hfinite : magnitude x ≠ ⊤) :
    ofFloat x = ofQuotient (Binary.ofFloat x) := by
  unfold ofFloat
  rw [hx.isNaN, Bool.false_or]
  rcases hx.kinds with ⟨s, h⟩ | h | ⟨m, e, hm, h⟩
  · have hinf : x.isInf = false := congrArg Float.Model.UnpackedFloat.isInf h
    have hzero : ofQuotient ⟨0, -1074⟩ = zero := by decide +kernel
    rw [hinf, ofFloat_of_zero h, hzero, ite_self]
  · exact absurd (magnitude_of_infinity h) hfinite
  · have hinf : x.isInf = false := congrArg Float.Model.UnpackedFloat.isInf h
    rw [hinf, isNegative_of_signOf (bits_of_finite h).1]
    rfl

theorem ofFloat_beats (b : Beat) : ofFloat b.beats = b.reread := by
  rw [ofFloat_of_nonNegative b.beats_spec.1 b.beats_ne_top]
  exact ofQuotient_congr b.value_beats

/-- A double that does not count as zero is finite and not below zero. -/
theorem nonNegative_of_ofFloat_ne (h : ofFloat x ≠ zero) : NonNegative x ∧ magnitude x ≠ ⊤ := by
  unfold ofFloat at h
  split at h
  · exact absurd rfl h
  · rename_i hx
    simp only [Bool.or_eq_true, not_or, Bool.not_eq_true] at hx
    obtain ⟨⟨hnan, hinf⟩, hsign⟩ := hx
    refine ⟨⟨hnan, ?_⟩, magnitude_ne_top hinf⟩
    rw [Bool.eq_false_iff, ne_eq, isNegative_iff] at hsign
    change x.toModel.unpack.isInf = false at hinf
    cases hunpack : x.toModel.unpack with
    | notANumber | zero s => rfl
    | infinity s =>
      rw [hunpack] at hinf
      cases hinf
    | finite s m e hm =>
      rw [(bits_of_finite hunpack).1] at hsign
      cases s with
      | positive => rfl
      | negative => exact absurd rfl hsign

theorem ofFloat_mono (h : x ≤ y) (hfinite : y.isInf = false) :
    (ofFloat x).ticks ≤ (ofFloat y).ticks := by
  by_cases hzero : ofFloat x = zero
  · rw [hzero]
    exact Nat.zero_le _
  obtain ⟨hx, hxtop⟩ := nonNegative_of_ofFloat_ne hzero
  have hy : NonNegative y := hx.of_le h
  have hytop : magnitude y ≠ ⊤ := magnitude_ne_top hfinite
  have hle := (le_iff_magnitude hx hy).mp h
  rw [magnitude_ofFloat hx hxtop, magnitude_ofFloat hy hytop] at hle
  rw [ofFloat_of_nonNegative hx hxtop, ofFloat_of_nonNegative hy hytop]
  apply ofQuotient_mono
  rw [← Binary.size_eq_value, ← Binary.size_eq_value]
  exact_mod_cast WithTop.coe_le_coe.mp hle

theorem beats_mono {a b : Beat} (h : a.ticks ≤ b.ticks) : (a.beats : Float) ≤ b.beats := by
  have ha := a.beats_spec.1
  have hb := b.beats_spec.1
  have hvalue := quotient_mono h
  rw [← value_beats, ← value_beats, ← Binary.size_eq_value, ← Binary.size_eq_value] at hvalue
  rw [le_iff_magnitude ha hb, magnitude_ofFloat ha a.beats_ne_top,
    magnitude_ofFloat hb b.beats_ne_top]
  exact WithTop.coe_le_coe.mpr (by exact_mod_cast hvalue)

end

end ScoreSynth.Beat
