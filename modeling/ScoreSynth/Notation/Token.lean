import ScoreSynth.Notation.Diagnostic
import ScoreSynth.Score

/-!
# Note tokens

A melodic token holds a letter, an optional accidental, an octave, a point and a duration, as in
`F#3.0.5`; the leftmost such run counts and what stands around it does not. A drum token is a code,
alone or with a point and a duration.
-/

namespace ScoreSynth.Notation

structure Spelling where
  letter : Char
  accidental : Int
  octave : List Char
  duration : List Char
  deriving DecidableEq, Repr

namespace Spelling

def isLetter (c : Char) : Bool := (PitchClass.natural? c).isSome

def accidentalOf : List Char → Int × List Char
  | '#' :: s => (1, s)
  | 'b' :: s => (-1, s)
  | s => (0, s)

def digitsOf (s : List Char) : List Char := s.takeWhile Char.isDigit

def afterDigits (s : List Char) : List Char := s.dropWhile Char.isDigit

/-- The duration at the front of a text: digits, and a point only where digits follow it. -/
def durationOf (s : List Char) : List Char :=
  match afterDigits s with
  | '.' :: r => if (digitsOf r).isEmpty then digitsOf s else digitsOf s ++ '.' :: digitsOf r
  | _ => digitsOf s

/-- The note spelled at the very front of a text. -/
def at? : List Char → Option Spelling
  | [] => none
  | letter :: s =>
    let (accidental, r) := accidentalOf s
    match isLetter letter, digitsOf r, afterDigits r with
    | true, o :: os, '.' :: d =>
      if (digitsOf d).isEmpty then none else some ⟨letter, accidental, o :: os, durationOf d⟩
    | _, _, _ => none

def first? : List Char → Option Spelling
  | [] => none
  | c :: s => (at? (c :: s)).or (first? s)

def greatestOctave : Int := 10

/-- The pitch, if its octave lies between 0 and 10 after respelling. -/
def pitch? (m : Spelling) : Option (PitchClass × Int) :=
  (PitchClass.spell? m.letter m.accidental).bind fun (p, shift) =>
    let octave := (Number.digitsValue m.octave : Int) + shift
    if 0 ≤ octave ∧ octave ≤ greatestOctave then some (p, octave) else none

end Spelling

namespace Token

def melodicNote (token : List Char) : Except Diagnostic Note :=
  let text := Text.trim token
  let read? := (Spelling.first? text).bind fun m =>
    m.pitch?.bind fun (p, octave) => (Beat.parse? m.duration).map fun d => Note.melodic p octave d
  match read? with
  | none => .error (.on .unmatchedToken text)
  | some n => if n.duration.isZero then .error (.on .invalidDuration text) else .ok n

def isCodeChar (c : Char) : Bool := c.isAlphanum || c == '_'

/-- The code and the text after the first point, if there is one. -/
def drumParts (text : List Char) : List Char × Option (List Char) :=
  match Text.cut '.' text with
  | some (code, d) => (code, some d)
  | none => (text, none)

/-- A missing or unreadable duration counts as one beat, a written zero drops the token. -/
def drumNote (token : List Char) : Except Diagnostic Note :=
  let text := Text.trim token
  let (code, d) := drumParts text
  if code.isEmpty || !code.all isCodeChar then .error (.on .unmatchedToken text)
  else
    let duration := (d.bind Beat.parse?).getD .one
    if duration.isZero then .error (.on .invalidDuration text) else .ok (Note.drum code duration)

/-- The duration of a drum token is missing or unreadable. -/
def lacksDuration (token : List Char) : Bool :=
  ((drumParts (Text.trim token)).2.bind Beat.parse?).isNone

def note (drums : Bool) (token : List Char) : Except Diagnostic Note :=
  if drums then drumNote token else melodicNote token

def read (drums : Bool) (token : List Char) : Reading (Option Note) :=
  match note drums token with
  | .error d => ⟨none, [.dropped d]⟩
  | .ok n =>
    ⟨some n, if drums && lacksDuration token then [.assumedBeat (Text.trim token)] else []⟩

end Token

end ScoreSynth.Notation
