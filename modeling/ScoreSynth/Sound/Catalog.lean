import ScoreSynth.Sound.Profile
import ScoreSynth.Text.Blank

/-!
# The instrument catalogue

All melodic instruments, one line each, and the envelope programs they share. A name that is not in
the catalogue sounds as a plain sine.
-/

namespace ScoreSynth.Sound.Catalog

section
variable {α : Type} [Scalar α]
open Breakpoint

/-! ### Envelope programs -/

def fading : List (Breakpoint α) := [onset 1.0, linear .ending 0.0]

def struck : List (Breakpoint α) := [onset 1.0, exponential .ending 0.2]

def harpsichord : List (Breakpoint α) := [onset 0.9, exponential (.seconds 1.0) 0.05]

def bellows : List (Breakpoint α) :=
  [onset 0.0, linear (.seconds 0.05) 0.8, step (.fraction 0.8) 0.7, linear .ending 0.0]

def bowed : List (Breakpoint α) :=
  [onset 0.0, linear (.seconds 0.1) 0.8, step (.fraction 0.9) 0.7, linear .ending 0.0]

def plucked : List (Breakpoint α) :=
  [onset 1.0, exponential (.seconds 0.1) 0.3, exponential .ending 0.05]

def harp : List (Breakpoint α) := [onset 0.9, exponential .ending 0.1]

def resonantPluck : List (Breakpoint α) :=
  [onset 1.1, exponential (.seconds 0.2) 0.4, exponential .ending 0.1]

def bass : List (Breakpoint α) := [onset 0.8, step (.fraction 0.8) 0.7, exponential .ending 0.0]

def brightBrass : List (Breakpoint α) :=
  [onset 0.0, linear (.seconds 0.05) 0.9, step (.fraction 0.8) 0.8, exponential .ending 0.0]

def softBrass : List (Breakpoint α) :=
  [onset 0.0, linear (.seconds 0.08) 0.8, step (.fraction 0.8) 0.7, exponential .ending 0.0]

def tuba : List (Breakpoint α) :=
  [onset 0.0, linear (.seconds 0.12) 0.7, step (.fraction 0.8) 0.6, exponential .ending 0.0]

def flute : List (Breakpoint α) :=
  [onset 0.0, linear (.seconds 0.06) 0.7, step (.fraction 0.9) 0.6, linear .ending 0.0]

def recorder : List (Breakpoint α) :=
  [onset 0.0, linear (.seconds 0.04) 0.6, step (.fraction 0.9) 0.5, linear .ending 0.0]

def reed : List (Breakpoint α) :=
  [onset 0.0, linear (.seconds 0.03) 0.8, step (.fraction 0.9) 0.7, linear .ending 0.0]

def doubleReed : List (Breakpoint α) :=
  [onset 0.0, linear (.seconds 0.04) 0.9, step (.fraction 0.9) 0.7, linear .ending 0.0]

def duduk : List (Breakpoint α) :=
  [onset 0.0, linear (.seconds 0.08) 0.6, step (.fraction 0.9) 0.5, linear .ending 0.0]

def vocal : List (Breakpoint α) := bowed

def mallet : List (Breakpoint α) := [onset 1.0, exponential (.seconds 2.0) 0.1]

def vibraphone : List (Breakpoint α) :=
  [onset 0.8, step (.fraction 0.8) 0.7, exponential .ending 0.1]

def celesta : List (Breakpoint α) := [onset 0.7, exponential .ending 0.05]

def timpani : List (Breakpoint α) := [onset 1.0, exponential (.seconds 3.0) 0.1]

def triangle : List (Breakpoint α) := [onset 0.6, exponential (.seconds 4.0) 0.1]

def click : List (Breakpoint α) := [onset 0.8, exponential (.seconds 0.1) 0.0]

def metal : List (Breakpoint α) := [onset 1.0, exponential (.seconds 5.0) 0.1]

def synth : List (Breakpoint α) :=
  [onset 0.0, linear (.seconds 0.02) 1.0, linear (.seconds 0.1) 0.7, step (.fraction 0.7) 0.7,
    exponential .ending 0.0]

def pad : List (Breakpoint α) :=
  [onset 0.0, linear (.seconds 0.2) 0.6, step (.fraction 0.8) 0.5, linear .ending 0.0]

def arp : List (Breakpoint α) := [onset 0.9, exponential (.seconds 0.5) 0.0]

def pluck : List (Breakpoint α) := [onset 1.0, exponential (.seconds 0.8) 0.1]

def polysynth : List (Breakpoint α) :=
  [onset 0.0, linear (.seconds 0.05) 0.8, step (.fraction 0.7) 0.6, exponential .ending 0.0]

def fm : List (Breakpoint α) :=
  [onset 0.0, linear (.seconds 0.01) 0.9, linear (.seconds 0.08) 0.5, step (.fraction 0.6) 0.4,
    exponential .ending 0.0]

def theremin : List (Breakpoint α) :=
  [onset 0.0, linear (.seconds 0.15) 0.6, step (.fraction 0.8) 0.5, linear .ending 0.0]

def glass : List (Breakpoint α) :=
  [onset 0.0, linear (.seconds 0.2) 0.5, step (.fraction 0.9) 0.4, linear .ending 0.0]

def sawBlade : List (Breakpoint α) :=
  [onset 0.0, linear (.seconds 0.12) 0.6, step (.fraction 0.9) 0.5, linear .ending 0.0]

def kalimba : List (Breakpoint α) := [onset 0.8, exponential .ending 0.15]

def steel : List (Breakpoint α) :=
  [onset 0.9, exponential (.seconds 0.2) 0.3, exponential .ending 0.1]

/-! ### Filter rules -/

def tracking (kind : FilterKind) (multiplier ceiling q : α) : FilterRule α :=
  ⟨kind, .tracking multiplier (some ceiling), q⟩

def fixed (kind : FilterKind) (hertz q : α) : FilterRule α := ⟨kind, .fixed hertz, q⟩

def lowPass (multiplier ceiling q : α) : FilterRule α := tracking .lowPass multiplier ceiling q

def bandPass (multiplier ceiling q : α) : FilterRule α := tracking .bandPass multiplier ceiling q

def voiceFilter : FilterRule α := bandPass 2.5 2000.0 4.0

def brassFilter : FilterRule α := lowPass 3.0 2500.0 3.0

def saxFilter : FilterRule α := bandPass 3.0 2500.0 6.0

def metalFilter : FilterRule α := lowPass 4.0 3000.0 0.3

/-! ### Profiles -/

def plain (name : String) (waveform : Waveform) (filter : FilterRule α)
    (envelope : List (Breakpoint α)) : Profile α :=
  ⟨name, waveform, filter, envelope, none, .none⟩

def modulated (m : Modulation α) (p : Profile α) : Profile α := { p with modulation := m }

def choral (p : Profile α) : Profile α := { p with unison := some ⟨3, 5.0⟩ }

/-- A sine through an all-pass filter, fading over the note. -/
def fallback : Profile α := plain "default" .sine ⟨.allPass, .tracking 1.0 none, 1.0⟩ fading

def profiles : List (Profile α) :=
  [ plain "piano" .triangle (lowPass 4.0 2000.0 0.5) struck,
    plain "electric_piano" .sine (lowPass 6.0 3000.0 2.0) struck,
    plain "harpsichord" .sawtooth (fixed .highPass 300.0 3.0) harpsichord,
    plain "organ" .square (lowPass 3.0 2500.0 1.0) bellows,
    plain "accordion" .sawtooth (bandPass 2.0 2000.0 4.0) bellows,
    plain "violin" .sawtooth (lowPass 8.0 4000.0 2.0) bowed,
    plain "viola" .sawtooth (lowPass 8.0 4000.0 2.0) bowed,
    plain "cello" .sawtooth (lowPass 4.0 2500.0 1.5) bowed,
    plain "double_bass" .sine (lowPass 2.0 500.0 0.8) bowed,
    plain "bass" .sine (lowPass 2.0 500.0 0.8) bass,
    plain "guitar" .triangle (bandPass 3.0 2000.0 3.0) plucked,
    plain "acoustic_guitar" .triangle (bandPass 3.0 2000.0 3.0) plucked,
    plain "electric_guitar" .square (lowPass 4.0 3000.0 8.0) plucked,
    plain "banjo" .triangle (fixed .highPass 400.0 4.0) plucked,
    plain "mandolin" .triangle (bandPass 4.0 3000.0 6.0) plucked,
    plain "harp" .triangle (lowPass 8.0 4000.0 0.5) harp,
    plain "sitar" .sawtooth (bandPass 2.0 1500.0 10.0) resonantPluck,
    plain "oud" .triangle (bandPass 2.5 1800.0 4.0) resonantPluck,
    plain "panduri" .triangle (bandPass 1.5 800.0 5.0) plucked,
    plain "trumpet" .square brassFilter brightBrass,
    plain "cornet" .square brassFilter brightBrass,
    plain "trombone" .square (lowPass 2.5 1800.0 2.0) softBrass,
    plain "french_horn" .triangle (lowPass 2.8 2000.0 2.0) softBrass,
    plain "tuba" .square (lowPass 1.5 800.0 1.5) tuba,
    plain "euphonium" .square (lowPass 1.5 800.0 1.5) softBrass,
    plain "brass" .square (lowPass 2.0 1500.0 2.0) brightBrass,
    plain "flute" .sine (fixed .highPass 200.0 0.8) flute,
    plain "piccolo" .sine (fixed .highPass 200.0 0.8) flute,
    plain "recorder" .triangle (lowPass 4.0 3000.0 1.0) recorder,
    plain "clarinet" .square (lowPass 3.0 2000.0 4.0) reed,
    plain "bass_clarinet" .square (lowPass 3.0 2000.0 4.0) reed,
    plain "saxophone" .square saxFilter reed,
    plain "alto_sax" .square saxFilter reed,
    plain "tenor_sax" .square saxFilter reed,
    plain "baritone_sax" .square saxFilter reed,
    plain "oboe" .square (bandPass 3.0 2200.0 8.0) doubleReed,
    plain "english_horn" .square (bandPass 3.0 2200.0 8.0) doubleReed,
    plain "bassoon" .square (lowPass 2.0 1200.0 3.0) doubleReed,
    plain "duduk" .triangle (lowPass 1.8 1000.0 6.0) duduk,
    choral (plain "choir" .sine voiceFilter vocal),
    choral (plain "soprano" .sine voiceFilter vocal),
    choral (plain "alto" .sine voiceFilter vocal),
    choral (plain "tenor" .sine voiceFilter vocal),
    choral (plain "bass_voice" .sine voiceFilter vocal),
    plain "xylophone" .square (fixed .highPass 800.0 2.0) mallet,
    plain "marimba" .triangle (lowPass 3.0 2000.0 1.0) mallet,
    modulated (.vibrato 5.0 0.01) (plain "vibraphone" .sine (lowPass 4.0 3000.0 2.0) vibraphone),
    plain "glockenspiel" .sine (fixed .highPass 1000.0 4.0) mallet,
    plain "bells" .sine (fixed .highPass 1000.0 4.0) mallet,
    plain "celesta" .triangle (lowPass 6.0 4000.0 2.0) celesta,
    plain "timpani" .sine (lowPass 1.2 400.0 0.8) timpani,
    plain "triangle" .sine (fixed .highPass 3000.0 8.0) triangle,
    plain "tambourine" .square (fixed .highPass 2000.0 4.0) click,
    plain "castanets" .square (fixed .bandPass 1500.0 6.0) click,
    plain "wood_block" .square (fixed .bandPass 1500.0 6.0) click,
    plain "temple_block" .square (fixed .bandPass 1500.0 6.0) click,
    plain "gong" .triangle metalFilter metal,
    plain "tam_tam" .triangle metalFilter metal,
    plain "cymbal" .triangle metalFilter metal,
    plain "synth" .sawtooth (fixed .lowPass 1200.0 8.0) synth,
    plain "lead" .sawtooth (fixed .lowPass 1200.0 8.0) synth,
    plain "pad" .sawtooth (fixed .lowPass 800.0 2.0) pad,
    plain "warm_pad" .sawtooth (fixed .lowPass 800.0 2.0) pad,
    plain "bright_pad" .triangle (fixed .lowPass 1800.0 4.0) pad,
    plain "arp" .square (bandPass 2.0 2000.0 10.0) arp,
    plain "pluck" .triangle (lowPass 4.0 2500.0 6.0) pluck,
    plain "strings" .sawtooth (lowPass 3.0 2500.0 1.0) bowed,
    plain "polysynth" .square (lowPass 2.5 1800.0 5.0) polysynth,
    modulated (.fm 2.0 0.5) (plain "fm_synth" .sine (bandPass 2.8 2200.0 8.0) fm),
    modulated (.vibrato 6.0 0.05) (plain "theremin" .sine (lowPass 2.0 1500.0 2.0) theremin),
    plain "glass_harmonica" .sine (fixed .highPass 400.0 6.0) glass,
    plain "musical_saw" .triangle (bandPass 2.2 1800.0 12.0) sawBlade,
    plain "kalimba" .triangle (lowPass 3.0 2000.0 4.0) kalimba,
    plain "steel_drum" .triangle (bandPass 3.0 2500.0 8.0) steel,
    plain "hang_drum" .triangle (bandPass 3.0 2500.0 8.0) steel ]

/-- The profile of a name in either case, with blanks around it or not. -/
def named (name : String) : Profile α :=
  let key := (Text.trim name.toList).map Char.toLower
  (profiles.find? fun p => p.name.toList = key).getD fallback

end

end ScoreSynth.Sound.Catalog
