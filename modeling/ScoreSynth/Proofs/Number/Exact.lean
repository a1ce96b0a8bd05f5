import Mathlib
import ScoreSynth.Beat
import ScoreSynth.Proofs.Number.Rounding

/-!
# Exact arithmetic

Timing and gain over the reals. Nothing is rounded, so lengths of ticks add up on the clock as they do
in ticks, and at a tempo each is a rational number of seconds.
-/

open Float.Model

namespace ScoreSynth

noncomputable def Number.exactly : UnpackedFloat → ℝ
  | .finite .positive m e _ => Binary.size ⟨m, e⟩
  | .finite .negative m e _ => -Binary.size ⟨m, e⟩
  | _ => 0

noncomputable instance : Scalar ℝ where
  below x y := decide (x < y)
  larger := max
  smaller := min
  power x y := x ^ y
  ofNat n := n
  ofVelocity v := Number.exactly v.toModel.unpack

namespace Beat

noncomputable def tickLength (tempo : Nat) : ℝ := 60 / (960 * tempo)

theorem tickLength_nonneg (tempo : Nat) : 0 ≤ tickLength tempo := by
  unfold tickLength
  positivity

theorem seconds_eq_mul (b : Beat) (tempo : Nat) :
    (b.seconds tempo : ℝ) = b.ticks * tickLength tempo := by
  have hbeat : (960.0 : ℝ) = 960 := by norm_num
  have hminute : (60.0 : ℝ) = 60 := by norm_num
  unfold seconds beats tickLength
  by_cases h : tempo = 0
  · subst h
    norm_num
  · have ht : (tempo : ℝ) ≠ 0 := by exact_mod_cast h
    rw [if_neg h]
    show (b.ticks : ℝ) / 960.0 * 60.0 / (tempo : ℝ) = _
    rw [hbeat, hminute]
    field_simp

/-- A length of ticks is a rational number of seconds. -/
theorem seconds_eq_cast (b : Beat) (tempo : Nat) :
    (b.seconds tempo : ℝ) = ((b.ticks * 60 / (960 * tempo) : ℚ) : ℝ) := by
  rw [seconds_eq_mul, tickLength]
  push_cast
  ring

end Beat

end ScoreSynth
