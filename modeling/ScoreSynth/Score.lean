import ScoreSynth.Beat
import ScoreSynth.Pitch

/-!
# Scores

A score is a tempo and tracks that run side by side; a track is an instrument and its patterns, a
pattern a list of chords, a chord notes that start together. `Chord.ofNotes` gives a chord the
length of its longest note.
-/

namespace ScoreSynth

inductive Pitch where
  | melodic (pitchClass : PitchClass) (octave : Int)
  | drum (code : String)
  deriving DecidableEq, Repr

structure Note where
  pitch : Pitch
  duration : Beat
  velocity : Float32
  deriving DecidableEq

namespace Note

def melodic (pitchClass : PitchClass) (octave : Int) (duration : Beat) : Note :=
  ⟨.melodic pitchClass octave, duration, 1.0⟩

/-- Drum codes are kept in lower case. -/
def drum (code : List Char) (duration : Beat) : Note :=
  ⟨.drum (String.ofList (code.map Char.toLower)), duration, 1.0⟩

/-- A velocity outside 0 to 1 moves to the nearer end. -/
def withVelocity (n : Note) (v : Float32) : Note :=
  { n with velocity := if v < 0.0 then 0.0 else if v > 1.0 then 1.0 else v }

end Note

structure Chord where
  notes : List Note
  duration : Beat
  deriving DecidableEq

namespace Chord

def ofNotes (notes : List Note) : Chord := ⟨notes, Beat.longest (notes.map (·.duration))⟩

def empty : Chord := ofNotes []

def isEmpty (c : Chord) : Bool := c.notes.isEmpty

end Chord

structure Pattern where
  chords : List Chord
  deriving DecidableEq

def Pattern.duration (p : Pattern) : Beat := Beat.sum (p.chords.map (·.duration))

/-- The name `drums`, in either case and with blanks around it, takes drum codes. -/
def isDrumInstrument (name : List Char) : Bool :=
  (Text.trim name).map Char.toLower == "drums".toList

structure Track where
  instrument : String
  patterns : List Pattern
  deriving DecidableEq

namespace Track

def isDrums (t : Track) : Bool := isDrumInstrument t.instrument.toList

/-- Pattern boundaries take no time. -/
def duration (t : Track) : Beat := Beat.sum (t.patterns.map (·.duration))

def chords (t : Track) : List Chord := t.patterns.flatMap (·.chords)

end Track

structure Score where
  tempo : Nat
  tracks : List Track
  deriving DecidableEq

namespace Score

def defaultTempo : Nat := 120

/-- Tempo zero counts as one beat a minute. -/
def ofTracks (tempo : Nat) (tracks : List Track) : Score := ⟨max tempo 1, tracks⟩

def blank : Score := ofTracks defaultTempo []

def notes (s : Score) : List Note := (s.tracks.flatMap Track.chords).flatMap (·.notes)

def noteCount (s : Score) : Nat := s.notes.length

def seconds {α : Type} [Scalar α] (s : Score) : α :=
  (s.tracks.map fun t => t.duration.seconds s.tempo).foldl Scalar.larger 0.0

end Score

end ScoreSynth
