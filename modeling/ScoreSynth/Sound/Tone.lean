import ScoreSynth.Sound.Envelope
import ScoreSynth.Sound.Filter
import ScoreSynth.Sound.Waveform

/-!
# Tones

A tone is a sound with everything settled: what makes the signal, how it is filtered, how its gain
moves and how its pitch is modulated. Times are seconds since its own start.
-/

namespace ScoreSynth.Sound

inductive Modulation (α : Type) where
  | none
  /-- A sine at `rate` moves the pitch by up to the fraction `depth`. -/
  | vibrato (rate depth : α)
  /-- A sine at `ratio` times the pitch moves it by up to `index` times itself. -/
  | fm (ratio index : α)

structure Sweep (α : Type) where
  target : α
  seconds : α

inductive Source (α : Type) where
  | oscillator (waveform : Waveform) (frequency : α) (sweep : Option (Sweep α))
  | noise (amplitude : α)

structure Tone (α : Type) where
  source : Source α
  filter : Option (FilterSpec α)
  envelope : Envelope α
  modulation : Modulation α

end ScoreSynth.Sound
