import ScoreSynth.Scalar

/-!
# Pitch classes

The twelve classes of equal temperament, spelled with sharps. A letter with an accidental is spelled
as a class and a shift of the octave, since a flat below C and a sharp above B leave the octave.
-/

namespace ScoreSynth

inductive PitchClass where
  | c | cSharp | d | dSharp | e | f | fSharp | g | gSharp | a | aSharp | b
  deriving DecidableEq, Repr

namespace PitchClass

def all : List PitchClass :=
  [.c, .cSharp, .d, .dSharp, .e, .f, .fSharp, .g, .gSharp, .a, .aSharp, .b]

/-- Semitones above C. -/
def index : PitchClass → Nat
  | c => 0 | cSharp => 1 | d => 2 | dSharp => 3 | e => 4 | f => 5 | fSharp => 6 | g => 7
  | gSharp => 8 | a => 9 | aSharp => 10 | b => 11

def ofIndex : Nat → PitchClass
  | 0 => c | 1 => cSharp | 2 => d | 3 => dSharp | 4 => e | 5 => f | 6 => fSharp | 7 => g
  | 8 => gSharp | 9 => a | 10 => aSharp | _ => b

def name : PitchClass → String
  | c => "C" | cSharp => "C#" | d => "D" | dSharp => "D#" | e => "E" | f => "F" | fSharp => "F#"
  | g => "G" | gSharp => "G#" | a => "A" | aSharp => "A#" | b => "B"

def lowered (s : String) : List Char := s.toList.map Char.toLower

/-- The class of a sharp-spelled name in either case. -/
def ofName? (s : String) : Option PitchClass := all.find? fun p => lowered p.name = lowered s

/-- Semitones of a natural letter above C. -/
def natural? (letter : Char) : Option Nat :=
  match letter.toUpper with
  | 'C' => some 0
  | 'D' => some 2
  | 'E' => some 4
  | 'F' => some 5
  | 'G' => some 7
  | 'A' => some 9
  | 'B' => some 11
  | _ => none

/--
The class of a letter moved by some semitones, and the octaves by which it left its own. The sum of
letter and accidental is a signed word of 32 bits.
-/
def spell? (letter : Char) (accidental : Int) : Option (PitchClass × Int) :=
  (natural? letter).map fun n =>
    let raw := Int.bmod (n + accidental) 0x100000000
    (ofIndex (raw % 12).toNat, raw / 12)

section
variable {α : Type} [Scalar α]

def concertPitch : α := 440.0

/-- Equal temperament around A4. -/
def frequency (p : PitchClass) (octave : Int) : α :=
  let semitones : α :=
    (Scalar.ofInt octave - 4.0) * 12.0 + Scalar.ofInt ((p.index : Int) - a.index)
  concertPitch * Scalar.power 2.0 (semitones / 12.0)

/-- A name that is no class sounds as A4. -/
def frequencyOf (name : String) (octave : Int) : α :=
  match ofName? name with
  | some p => p.frequency octave
  | none => concertPitch

end

theorem ofIndex_index (p : PitchClass) : ofIndex p.index = p := by cases p <;> rfl

theorem index_lt (p : PitchClass) : p.index < 12 := by cases p <;> decide

theorem index_ofIndex {n : Nat} (h : n < 12) : (ofIndex n).index = n := by
  match n, h with
  | 0, _ | 1, _ | 2, _ | 3, _ | 4, _ | 5, _ | 6, _ | 7, _ | 8, _ | 9, _ | 10, _ | 11, _ => rfl

end PitchClass

end ScoreSynth
