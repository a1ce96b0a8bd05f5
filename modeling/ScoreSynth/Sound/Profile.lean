import ScoreSynth.Sound.Tone

/-!
# Instrument profiles

A profile is a recipe from which the tones of a note follow: its pitch, length and velocity settle
the filter, the envelope and the detuned copies that sound in unison.
-/

namespace ScoreSynth.Sound

inductive CutoffRule (α : Type) where
  | fixed (hertz : α)
  /-- A multiple of the pitch, not above the ceiling. -/
  | tracking (multiplier : α) (ceiling : Option α)

structure FilterRule (α : Type) where
  kind : FilterKind
  cutoff : CutoffRule α
  q : α

/-- Copies of a note spread evenly around it, neighbours `spread` cents apart. -/
structure Unison (α : Type) where
  voices : Nat
  spread : α

structure Profile (α : Type) where
  name : String
  waveform : Waveform
  filter : FilterRule α
  envelope : List (Breakpoint α)
  unison : Option (Unison α)
  modulation : Modulation α

section
variable {α : Type} [Scalar α]
open Scalar

/-- A note peaks at this part of its velocity. -/
def peakScale : α := 0.3

def CutoffRule.resolve (r : CutoffRule α) (frequency : α) : α :=
  match r with
  | .fixed hertz => hertz
  | .tracking multiplier none => frequency * multiplier
  | .tracking multiplier (some ceiling) => smaller (frequency * multiplier) ceiling

def FilterRule.resolve (r : FilterRule α) (frequency : α) : FilterSpec α :=
  ⟨r.kind, r.cutoff.resolve frequency, r.q⟩

/-- Cents by which the voice numbered `i` differs from the middle of all. -/
def Unison.detune (u : Unison α) (i : Nat) : α :=
  (ofNat i - ofNat (max u.voices 1 - 1) / 2.0) * u.spread

namespace Profile

/-- One entry a voice; a single voice is not detuned. -/
def detunes (p : Profile α) : List α :=
  match p.unison with
  | some u => if 1 < u.voices then (List.range u.voices).map u.detune else [0.0]
  | none => [0.0]

def tones (p : Profile α) (frequency length : α) (velocity : Float32) : List (Tone α) :=
  let envelope := Envelope.resolve p.envelope length (ofVelocity velocity * peakScale)
  p.detunes.map fun cents =>
    { source := .oscillator p.waveform (frequency * centsRatio cents) none
      filter := some (p.filter.resolve frequency)
      envelope := envelope
      modulation := p.modulation }

end Profile

end

end ScoreSynth.Sound
