import ScoreSynth.Sound.Noise
import ScoreSynth.Sound.Tone

/-!
# Voices

A voice renders a tone sample by sample: the signal of its source, its pitch modulation, its filter
and its gain. Time starts at zero with the first sample.
-/

namespace ScoreSynth.Sound

inductive Generator where
  | oscillator (o : Oscillator) (frequency : Float) (sweep : Option (Sweep Float))
  | noise (n : Noise) (amplitude : Float)

structure Voice where
  generator : Generator
  modulation : Modulation Float
  /-- The sine behind vibrato and frequency modulation. -/
  modulator : Oscillator
  filter : Filter
  envelope : Envelope Float
  period : Float
  position : Nat

def Generator.ofSource (s : Source Float) (rate : Nat) (seed : UInt64) : Generator :=
  match s with
  | .oscillator w frequency sweep => .oscillator (Oscillator.start w rate) frequency sweep
  | .noise amplitude => .noise (Noise.ofSeed seed) amplitude

/-- The frequency at `t` of an exponential glide, which then stays at its target. -/
def sweptFrequency (start : Float) (sweep : Option (Sweep Float)) (t : Float) : Float :=
  match sweep with
  | none => start
  | some s =>
    if s.seconds > 0.0 && start > 0.0 then
      let target := Scalar.larger s.target gainFloor
      start * Float.pow (target / start) (Scalar.clamp 0.0 1.0 (t / s.seconds))
    else start

/-- The modulated frequency, and the modulator one sample on if there is a modulation. -/
def Modulation.apply (m : Modulation Float) (base : Float) (modulator : Oscillator) :
    Float × Oscillator :=
  match m with
  | .none => (base, modulator)
  | .vibrato rate depth =>
    let (x, modulator) := modulator.next rate
    (base * (1.0 + depth * x), modulator)
  | .fm ratio index =>
    let (x, modulator) := modulator.next (base * ratio)
    (base + index * base * x, modulator)

namespace Voice

/-- The seed counts only for a source of noise. -/
def ofTone (tone : Tone Float) (rate : Nat) (seed : UInt64) : Voice :=
  { generator := .ofSource tone.source rate seed
    modulation := tone.modulation
    modulator := Oscillator.start .sine rate
    filter := match tone.filter with
      | some spec => Filter.ofSpec spec rate
      | none => Filter.bypass
    envelope := tone.envelope
    period := samplePeriod rate
    position := 0 }

def elapsed (v : Voice) : Float := Float.ofNat v.position * v.period

/-- The next value of the source, before filter and gain. -/
def raw (v : Voice) : Float × Voice :=
  match v.generator with
  | .oscillator o frequency sweep =>
    let base := sweptFrequency frequency sweep v.elapsed
    let (f, modulator) := v.modulation.apply base v.modulator
    let (x, o) := o.next f
    (x, { v with generator := .oscillator o frequency sweep, modulator := modulator })
  | .noise n amplitude =>
    let (x, n) := n.next
    (x * amplitude, { v with generator := .noise n amplitude })

def next (v : Voice) : Float32 × Voice :=
  let gain := v.envelope.valueAt v.elapsed
  let (x, w) := v.raw
  let (y, filter) := w.filter.next x.toFloat32
  (y * gain.toFloat32, { w with filter := filter, position := v.position + 1 })

def run : Nat → Voice → Array Float32 → Array Float32 × Voice
  | 0, v, out => (out, v)
  | n + 1, v, out =>
    let (x, v) := v.next
    run n v (out.push x)

end Voice

end ScoreSynth.Sound
