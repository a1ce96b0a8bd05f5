import ScoreSynth.Score
import ScoreSynth.Sound.Catalog
import ScoreSynth.Sound.DrumKit

/-!
# Plans

A plan lists every tone of a score with its start and stop on a clock. Each track keeps a cursor in
beats from a common base; the notes of a chord start at the cursor, which then moves on by the
length of the chord. The beats passed so far are turned into seconds once a chord, so that long
tracks do not drift.
-/

namespace ScoreSynth

structure Command (α : Type) where
  start : α
  stop : α
  tone : Sound.Tone α

section
variable {α : Type} [Scalar α]

namespace Command

/-- A stop before the start moves to it. -/
def placed (start stop : α) (tone : Sound.Tone α) : Command α :=
  ⟨start, Scalar.larger stop start, tone⟩

def length (c : Command α) : α := c.stop - c.start

end Command

namespace Plan

/--
Melodic notes ring for their length and the tail; the layers of a drum have their own delays and
lengths.
-/
def note (instrument : String) (tempo : Nat) (start tail : α) (n : Note) : List (Command α) :=
  match n.pitch with
  | .melodic p octave =>
    let length := n.duration.seconds tempo
    ((Sound.Catalog.named instrument).tones (p.frequency octave) length n.velocity).map fun tone =>
      .placed start (start + length + tail) tone
  | .drum code =>
    (Sound.DrumKit.named code).layers.map fun l =>
      .placed (start + l.delay) (start + l.delay + l.length) (l.tone n.velocity)

def chord (instrument : String) (tempo : Nat) (start tail : α) (c : Chord) : List (Command α) :=
  c.notes.flatMap (note instrument tempo start tail)

def chords (instrument : String) (tempo : Nat) (base tail : α) (cursor : Beat) :
    List Chord → List (Command α)
  | [] => []
  | c :: cs =>
    chord instrument tempo (base + cursor.seconds tempo) tail c ++
      chords instrument tempo base tail (cursor + c.duration) cs

def track (t : Track) (tempo : Nat) (base tail : α) : List (Command α) :=
  chords t.instrument tempo base tail .zero t.chords

/-- All tracks start at the base. -/
def score (s : Score) (base tail : α) : List (Command α) :=
  s.tracks.flatMap fun t => track t s.tempo base tail

end Plan

end

end ScoreSynth
