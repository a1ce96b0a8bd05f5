import ScoreSynth.Sound.Tone
import ScoreSynth.Text.Blank

/-!
# The drum kit

Percussion by short code or full name. A hit is one or more layers, each with a length of its own:
the written duration of a drum note moves time on and never stretches the sound.
-/

namespace ScoreSynth.Sound

structure DrumLayer (α : Type) where
  source : Source α
  filter : Option (FilterSpec α)
  envelope : List (Breakpoint α)
  /-- Seconds from the hit to the start of the layer. -/
  delay : α
  length : α

structure Drum (α : Type) where
  name : String
  aliases : List String
  layers : List (DrumLayer α)

section
variable {α : Type} [Scalar α]

def DrumLayer.tone (l : DrumLayer α) (velocity : Float32) : Tone α :=
  { source := l.source
    filter := l.filter
    envelope := Envelope.resolve l.envelope l.length (Scalar.ofVelocity velocity)
    modulation := .none }

/-- Seconds from the hit until the last layer stops. -/
def Drum.length (d : Drum α) : α :=
  (d.layers.map fun l => l.delay + l.length).foldl Scalar.larger 0.0

def Drum.answersTo (d : Drum α) (key : List Char) : Bool :=
  d.name.toList == key || d.aliases.any fun a => a.toList == key

end

namespace DrumKit

section
variable {α : Type} [Scalar α]
open Breakpoint

def steady (waveform : Waveform) (hertz : α) : Source α := .oscillator waveform hertz none

def glide (waveform : Waveform) (start target seconds : α) : Source α :=
  .oscillator waveform start (some ⟨target, seconds⟩)

def filtered (kind : FilterKind) (cutoff q : α) : Option (FilterSpec α) := some ⟨kind, cutoff, q⟩

def highPass (cutoff : α) : Option (FilterSpec α) := filtered .highPass cutoff 1.0

/-- A fall from a level to a hundredth of the peak. -/
def decay (level seconds : α) : List (Breakpoint α) :=
  [onset level, exponential (.seconds seconds) 0.01]

def hit (source : Source α) (filter : Option (FilterSpec α)) (level length : α) : DrumLayer α :=
  ⟨source, filter, decay level length, 0.0, length⟩

def after (delay : α) (l : DrumLayer α) : DrumLayer α := { l with delay := delay }

def reverseSwell : List (Breakpoint α) :=
  [onset 0.01, exponential (.seconds 0.8) 0.8, exponential (.seconds 1.0) 0.01]

def gated : List (Breakpoint α) :=
  [onset 0.8, exponential (.seconds 0.05) 0.01, step (.seconds 0.05) 0.01,
    exponential (.seconds 0.1) 0.6, exponential (.seconds 0.6) 0.01]

def click (delay : α) : DrumLayer α := ⟨.noise 0.4, none, [onset 0.6], delay, 0.02⟩

/-- Played for a code that no drum answers to. -/
def fallback : Drum α :=
  ⟨"generic", [], [hit (glide .triangle 100.0 40.0 0.15) none 0.7 0.2]⟩

def drums : List (Drum α) :=
  [ ⟨"kick", ["k"], [hit (glide .sine 150.0 0.01 0.1) none 1.0 0.1]⟩,
    ⟨"snare", ["s"], [hit (.noise 1.0) none 0.8 0.1]⟩,
    ⟨"hihat", ["h"], [⟨.noise 1.0, (highPass 7000.0), (decay 0.4 0.02), 0.0, 0.05⟩]⟩,
    ⟨"open_hihat", ["o"], [hit (.noise 1.0) (highPass 7000.0) 0.4 0.15]⟩,
    ⟨"crash", ["c"], [hit (.noise 1.0) (highPass 4000.0) 0.6 0.8]⟩,
    ⟨"ride", ["r"],
      [hit (steady .triangle 800.0) (highPass 600.0) 0.3 1.0,
        hit (steady .sine 1200.0) (highPass 600.0) 0.3 1.0]⟩,
    ⟨"tom", ["t"], [hit (glide .sine 200.0 50.0 0.2) none 0.8 0.3]⟩,
    ⟨"floor_tom", ["f"], [hit (glide .sine 120.0 30.0 0.4) none 0.9 0.5]⟩,
    ⟨"splash", ["sp"], [hit (.noise 1.0) (highPass 5000.0) 0.5 0.3]⟩,
    ⟨"china", ["ch"], [hit (.noise 1.0) (filtered .bandPass 3000.0 0.5) 0.7 1.0]⟩,
    ⟨"ride_bell", ["rb"],
      [hit (steady .triangle 2000.0) (filtered .highPass 1500.0 8.0) 0.6 0.3]⟩,
    ⟨"cowbell", ["cb"],
      [hit (steady .square 800.0) (filtered .bandPass 800.0 4.0) 0.5 0.2,
        hit (steady .triangle 540.0) (filtered .bandPass 800.0 4.0) 0.5 0.2]⟩,
    ⟨"wood_block", ["wb"], [hit (.noise 1.0) (filtered .bandPass 2000.0 8.0) 0.7 0.08]⟩,
    ⟨"clap", ["cl"],
      [hit (.noise 1.0) (highPass 2000.0) 0.4 0.04,
        after 0.01 (hit (.noise 1.0) (highPass 2000.0) 0.4 0.04),
        after 0.02 (hit (.noise 1.0) (highPass 2000.0) 0.4 0.04)]⟩,
    ⟨"tambourine", ["tam"], [hit (.noise 1.0) (highPass 4000.0) 0.5 0.15]⟩,
    ⟨"shaker", ["sha"], [hit (.noise 1.0) (highPass 6000.0) 0.3 0.12]⟩,
    ⟨"cabasa", ["ca"], [hit (.noise 1.0) (filtered .bandPass 5000.0 2.0) 0.4 0.1]⟩,
    ⟨"maracas", ["ma"], [hit (.noise 1.0) (highPass 8000.0) 0.4 0.08]⟩,
    ⟨"frame_drum", ["d", "doli"],
      [hit (glide .sine 200.0 80.0 0.1) (filtered .bandPass 300.0 2.0) 0.8 0.15]⟩,
    ⟨"tabla", ["ta"],
      [hit (glide .sine 200.0 80.0 0.15) none 0.7 0.25,
        hit (glide .triangle 400.0 150.0 0.1) none 0.7 0.25]⟩,
    ⟨"bongo", [],
      [hit (glide .triangle 300.0 180.0 0.12) (filtered .bandPass 400.0 3.0) 0.6 0.18]⟩,
    ⟨"conga", [], [hit (glide .sine 220.0 120.0 0.2) (filtered .lowPass 800.0 2.0) 0.8 0.3]⟩,
    ⟨"djembe", [],
      [hit (glide .sine 180.0 60.0 0.2) (filtered .lowPass 1200.0 1.0) 0.8 0.35,
        hit (glide .triangle 400.0 200.0 0.15) (filtered .lowPass 1200.0 1.0) 0.8 0.35]⟩,
    ⟨"cajon", ["cai"],
      [hit (glide .triangle 120.0 40.0 0.15) none 0.7 0.2,
        hit (.noise 1.0) (highPass 1000.0) 0.3 0.1]⟩,
    ⟨"timbale", ["ti"],
      [hit (glide .triangle 350.0 200.0 0.15) (filtered .bandPass 600.0 4.0) 0.7 0.25]⟩,
    ⟨"udu", ["uk"], [hit (glide .sine 160.0 80.0 0.3) (filtered .lowPass 600.0 3.0) 0.8 0.4]⟩,
    ⟨"timpani", ["tim"],
      [hit (glide .sine 200.0 160.0 0.5) (filtered .lowPass 400.0 1.0) 1.0 2.0]⟩,
    ⟨"gong", [],
      [hit (steady .triangle 100.0) (filtered .lowPass 2000.0 0.5) 0.8 3.0,
        hit (steady .sine 200.0) (filtered .lowPass 2000.0 0.5) 0.8 3.0,
        hit (steady .triangle 300.0) (filtered .lowPass 2000.0 0.5) 0.8 3.0]⟩,
    ⟨"triangle", ["tri"],
      [hit (steady .sine 2000.0) none 0.3 2.0,
        hit (steady .sine 3000.0) none 0.3 2.0]⟩,
    ⟨"suspended_cymbal", ["sus"], [hit (.noise 1.0) (highPass 3000.0) 0.6 2.5]⟩,
    ⟨"vibraslap", ["vib"], [hit (.noise 1.0) (filtered .bandPass 3000.0 4.0) 0.5 0.3]⟩,
    ⟨"wind_chimes", ["ws"],
      [hit (steady .sine 800.0) none 0.2 1.5,
        after 0.05 (hit (steady .sine 1000.0) none 0.2 1.5),
        after 0.10 (hit (steady .sine 1200.0) none 0.2 1.5),
        after 0.15 (hit (steady .sine 1500.0) none 0.2 1.5),
        after 0.20 (hit (steady .sine 1800.0) none 0.2 1.5)]⟩,
    ⟨"ratchet", ["ra"],
      [click 0.00,
        click 0.02,
        click 0.04,
        click 0.06,
        click 0.08,
        click 0.10,
        click 0.12,
        click 0.14]⟩,
    ⟨"whip", ["wh"], [hit (.noise 1.0) (filtered .bandPass 2500.0 10.0) 0.8 0.08]⟩,
    ⟨"kick_808", ["808"],
      [hit (glide .sine 80.0 20.0 0.2) (filtered .lowPass 200.0 2.0) 1.0 0.3]⟩,
    ⟨"electronic_snare", ["elec"],
      [hit (steady .triangle 200.0) none 0.6 0.1,
        hit (.noise 1.0) (filtered .highPass 2000.0 4.0) 0.8 0.12]⟩,
    ⟨"reverse_cymbal", ["rev"], [⟨.noise 1.0, (highPass 4000.0), reverseSwell, 0.0, 1.0⟩]⟩,
    ⟨"gated_snare", ["gat"],
      [⟨.noise 1.0, (filtered .bandPass 1000.0 4.0), gated, 0.0, 0.6⟩]⟩ ]

/-- The drum of a code or name in either case, with blanks around it or not. -/
def named (code : String) : Drum α :=
  let key := (Text.trim code.toList).map Char.toLower
  (drums.find? fun d => d.answersTo key).getD fallback

end

end DrumKit

end ScoreSynth.Sound
