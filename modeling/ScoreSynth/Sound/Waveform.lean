import ScoreSynth.Scalar

/-!
# Waveforms and oscillators

One cycle of a waveform runs over phases from 0 to 1. An oscillator remembers only its phase, so its
frequency may change with every sample.
-/

namespace ScoreSynth.Sound

inductive Waveform where
  | sine
  | sawtooth
  | square
  | triangle
  deriving DecidableEq, Repr

def pi : Float := 3.141592653589793

def Waveform.sample (w : Waveform) (phase : Float) : Float :=
  match w with
  | .sine => Float.sin (phase * 2.0 * pi)
  | .sawtooth => 2.0 * phase - 1.0
  | .square => if phase < 0.5 then 1.0 else -1.0
  | .triangle =>
    if phase < 0.25 then 4.0 * phase
    else if phase < 0.75 then 2.0 - 4.0 * phase
    else 4.0 * phase - 4.0

/-- The part of a number above the greatest whole number below it. -/
def fractionOf (x : Float) : Float :=
  let r := if x < 0.0 then x - x.ceil else x - x.floor
  if r < 0.0 then r + 1.0 else r

/-- Seconds from one sample to the next; rate zero counts as one. -/
def samplePeriod (rate : Nat) : Float := 1.0 / Float.ofNat (max rate 1)

structure Oscillator where
  waveform : Waveform
  phase : Float
  period : Float

namespace Oscillator

def start (w : Waveform) (rate : Nat) : Oscillator := ⟨w, 0.0, samplePeriod rate⟩

/-- The sample at the current phase, and the oscillator one sample on. -/
def next (o : Oscillator) (frequency : Float) : Float × Oscillator :=
  (o.waveform.sample o.phase, { o with phase := fractionOf (o.phase + frequency * o.period) })

end Oscillator

/-- The ratio of two frequencies some hundredths of a semitone apart. -/
def centsRatio {α : Type} [Scalar α] (cents : α) : α := Scalar.power 2.0 (cents / 1200.0)

end ScoreSynth.Sound
