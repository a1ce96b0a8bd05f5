import ScoreSynth.Score

/-!
# Writing a score

A score is written as its tempo and one line a track. Empty chords are left out, then patterns
without chords, then tracks without patterns.
-/

namespace ScoreSynth.Notation

def writePitch : Pitch → List Char
  | .melodic p octave => p.name.toList ++ Number.Layout.writeInt octave
  | .drum code => code.toList

def writeNote (n : Note) : List Char := writePitch n.pitch ++ '.' :: n.duration.write

def writeChord (c : Chord) : List Char := ['+'].intercalate (c.notes.map writeNote)

def writePattern (p : Pattern) : Option (List Char) :=
  let chords := (p.chords.filter fun c => !c.isEmpty).map writeChord
  if chords.isEmpty then none else some ([','].intercalate chords)

def writeTrack (t : Track) : Option (List Char) :=
  let patterns := t.patterns.filterMap writePattern
  if patterns.isEmpty then none
  else some ('\n' :: (t.instrument.toList ++ ':' :: (['|'].intercalate patterns ++ [';'])))

def writeTempo (tempo : Nat) : List Char :=
  "tempo:".toList ++ (Number.decimalText tempo ++ [';'])

def writeChars (s : Score) : List Char :=
  writeTempo s.tempo ++ (s.tracks.filterMap writeTrack).flatten

def write (s : Score) : String := String.ofList (writeChars s)

end ScoreSynth.Notation
