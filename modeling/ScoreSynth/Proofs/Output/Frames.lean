import Mathlib.Logic.Function.Iterate
import ScoreSynth.Output.Mixer

/-!
# Frames of a mixer

A block is rendered frame by frame, so what a mixer gives is settled by its states before each frame
and by the sounds it has there. Blocks of whole frames can be cut anywhere.
-/

namespace ScoreSynth

def Sound.Voice.after (n : Nat) (v : Sound.Voice) : Sound.Voice := (fun v => v.next.2)^[n] v

namespace Output

def framesIn (channels size : Nat) : Nat := (size + channels - 1) / channels

theorem framesIn_mul {channels : Nat} (hc : 0 < channels) (n : Nat) :
    framesIn channels (n * channels) = n := by
  unfold framesIn
  rw [Nat.add_sub_assoc hc, Nat.mul_comm, Nat.mul_add_div hc, Nat.div_eq_of_lt (by omega),
    Nat.add_zero]

theorem framesIn_mul_add {channels : Nat} (hc : 0 < channels) (n size : Nat) :
    framesIn channels (n * channels + size) = n + framesIn channels size := by
  unfold framesIn
  have h : n * channels + size + channels - 1 = channels * n + (size + channels - 1) := by
    rw [Nat.mul_comm n]; omega
  rw [h, Nat.mul_add_div hc]

theorem div_lt_framesIn {channels i size : Nat} (hc : 0 < channels) (hi : i < size) :
    i / channels < framesIn channels size := by
  unfold framesIn
  rw [Nat.div_lt_iff_lt_mul hc]
  have h := Nat.div_add_mod (size + channels - 1) channels
  have hm := Nat.mod_lt (size + channels - 1) hc
  rw [Nat.mul_comm]; omega

namespace Mixer

def after (n : Nat) (m : Mixer) : Mixer := (fun m => m.next.2)^[n] m

def sounds (m : Mixer) : List Float32 := m.startDue.dropStopped.sounding.map fun s => s.voice.next.1

theorem after_zero (m : Mixer) : m.after 0 = m := rfl

theorem after_succ (n : Nat) (m : Mixer) : m.after (n + 1) = m.next.2.after n := rfl

theorem after_succ' (n : Nat) (m : Mixer) : m.after (n + 1) = (m.after n).next.2 :=
  Function.iterate_succ_apply' _ n m

theorem after_add (a b : Nat) (m : Mixer) : m.after (a + b) = (m.after a).after b := by
  unfold after; rw [Nat.add_comm, Function.iterate_add_apply]

theorem next_fst (m : Mixer) :
    m.next.1 = clampSample (-limit) limit (sum m.sounds * m.volume) := by
  simp only [next, mix, sounds, List.map_map, Function.comp_def]
  rfl

@[simp] theorem next_rate (m : Mixer) : m.next.2.rate = m.rate := rfl

@[simp] theorem next_channels (m : Mixer) : m.next.2.channels = m.channels := rfl

@[simp] theorem next_volume (m : Mixer) : m.next.2.volume = m.volume := rfl

@[simp] theorem next_frame (m : Mixer) : m.next.2.frame = m.frame + 1 := rfl

theorem after_volume (n : Nat) (m : Mixer) : (m.after n).volume = m.volume := by
  induction n generalizing m with
  | zero => rfl
  | succ n ih => rw [after_succ, ih, next_volume]

theorem after_channels (n : Nat) (m : Mixer) : (m.after n).channels = m.channels := by
  induction n generalizing m with
  | zero => rfl
  | succ n ih => rw [after_succ, ih, next_channels]

theorem after_rate (n : Nat) (m : Mixer) : (m.after n).rate = m.rate := by
  induction n generalizing m with
  | zero => rfl
  | succ n ih => rw [after_succ, ih, next_rate]

theorem after_frame (n : Nat) (m : Mixer) : (m.after n).frame = m.frame + n := by
  induction n generalizing m with
  | zero => rfl
  | succ n ih => rw [after_succ, ih, next_frame]; omega

/-! ## Blocks -/

theorem run_eq (n : Nat) (m : Mixer) (out : Array Float32) :
    run n m out = (out ++ Array.ofFn fun i : Fin n => (m.after i).next.1, m.after n) := by
  induction n generalizing m out with
  | zero => simp [run, after_zero]
  | succ n ih =>
    simp only [run, ih, after_succ, Prod.mk.injEq, and_true]
    apply Array.toList_inj.mp
    simp [List.ofFn_succ, after_succ, after_zero]

theorem fill_snd (m : Mixer) (size : Nat) : (m.fill size).2 = m.after (framesIn m.channels size) := by
  simp only [fill, run_eq]; rfl

theorem size_fill (m : Mixer) (size : Nat) : (m.fill size).1.size = size := by
  simp [fill, interleave]

theorem fill_frame (m : Mixer) (size : Nat) :
    (m.fill size).2.frame = m.frame + framesIn m.channels size := by
  rw [fill_snd, after_frame]

theorem fill_channels (m : Mixer) (size : Nat) : (m.fill size).2.channels = m.channels := by
  rw [fill_snd, after_channels]

theorem fill_rate (m : Mixer) (size : Nat) : (m.fill size).2.rate = m.rate := by
  rw [fill_snd, after_rate]

theorem getElem_fill {m : Mixer} (hc : 0 < m.channels) {i size : Nat} (h : i < (m.fill size).1.size) :
    (m.fill size).1[i] = (m.after (i / m.channels)).next.1 := by
  have hi : i < size := by rwa [size_fill] at h
  have hf : i / m.channels < (size + m.channels - 1) / m.channels := div_lt_framesIn hc hi
  simp [fill, run_eq, interleave, Array.getD, hf]

/-- A block of whole frames and the block after it are one block. -/
theorem fill_append {m : Mixer} (hc : 0 < m.channels) (n size : Nat) :
    m.fill (n * m.channels + size) =
      ((m.fill (n * m.channels)).1 ++ ((m.fill (n * m.channels)).2.fill size).1,
        ((m.fill (n * m.channels)).2.fill size).2) := by
  have hs : (m.fill (n * m.channels)).2 = m.after n := by rw [fill_snd, framesIn_mul hc]
  have hc' : 0 < (m.after n).channels := by rwa [after_channels]
  apply Prod.ext
  · apply Array.ext
    · simp only [Array.size_append, size_fill]
    · intro i h₁ h₂
      rw [Array.getElem_append, getElem_fill hc]
      split
      · rw [getElem_fill hc]
      · rename_i hi
        have hi : n * m.channels ≤ i := by simpa only [size_fill, Nat.not_lt] using hi
        simp only [hs, size_fill]
        rw [getElem_fill hc', after_channels, ← after_add]
        obtain ⟨j, rfl⟩ := Nat.exists_eq_add_of_le hi
        rw [Nat.add_sub_cancel_left, Nat.mul_comm n, Nat.mul_add_div hc]
  · simp only [hs, fill_snd, after_channels, framesIn_mul_add hc, after_add]

end Mixer

end Output

end ScoreSynth
