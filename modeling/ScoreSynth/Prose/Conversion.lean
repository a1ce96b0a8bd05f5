import ScoreSynth.Score

/-!
# Prose as music

Each character of a text becomes a note of the C major scale on one piano track. A space becomes a
chord without notes, which takes no time; a pattern ends with a space or with its eighth chord.
-/

namespace ScoreSynth.Prose

def scale : List PitchClass := [.c, .d, .e, .f, .g, .a, .b]

def baseOctave : Nat := 4

def highestOctave : Nat := 6

def chordsPerPattern : Nat := 8

def isPunctuation (c : Char) : Bool := ".,!?;:()-\"'".toList.contains c

def isVowel (c : Char) : Bool := "aeiou".toList.contains c

/-- Degree of the scale and octave: letters climb the scale, all else stays in one octave. -/
def degree (c : Char) : Nat × Nat :=
  if c.isLower then
    let offset := c.toNat - 'a'.toNat
    (offset % 7, min highestOctave (baseOctave + offset / 7))
  else if c.isDigit then (Number.digitValue c % 7, baseOctave)
  else (c.toLower.toNat % 7, baseOctave)

/-- Vowels are long and loud, punctuation is soft. -/
def weight (c : Char) : Beat × Float32 :=
  if isVowel c.toLower then (.one, 0.8)
  else if isPunctuation c then (.threeQuarters, 0.6)
  else (.half, 0.7)

def chord (c : Char) : Chord :=
  if c = ' ' then .empty
  else
    let (d, octave) := degree c
    let (duration, velocity) := weight c
    .ofNotes [(Note.melodic (scale.getD d .c) octave duration).withVelocity velocity]

/-- Runs of characters, each closed by a space or by its eighth character. -/
def runs (current : List Char) : List Char → List (List Char)
  | [] => if current.isEmpty then [] else [current]
  | c :: s =>
    let current := current ++ [c]
    if c = ' ' || chordsPerPattern ≤ current.length then current :: runs [] s else runs current s

def pattern (run : List Char) : Pattern := ⟨run.map chord⟩

/-- A text without characters gives one pattern without chords. -/
def patterns (text : List Char) : List Pattern :=
  if text.isEmpty then [⟨[]⟩] else (runs [] text).map pattern

def score (text : String) : Score :=
  .ofTracks Score.defaultTempo [⟨"piano", patterns text.toList⟩]

end ScoreSynth.Prose
