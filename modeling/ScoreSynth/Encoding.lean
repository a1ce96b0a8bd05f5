import ScoreSynth.Score

/-!
# Stored scores

A score is stored with all that it holds, the length of each chord included, and is loaded as it was
stored: nothing is worked out again. Lengths are stored in beats. How numbers, texts, lists, records
and variants become text is left to an encoding.
-/

namespace ScoreSynth

/-- Data as a library makes it and takes it apart again, and as text on one line or on many. -/
structure Encoding (α : Type) where
  ofDouble : Float → α
  double? : α → Option Float
  ofSingle : Float32 → α
  single? : α → Option Float32
  ofInt : Int → α
  /-- A whole number between two others. -/
  int? : Int → Int → α → Option Int
  ofText : String → α
  text? : α → Option String
  ofList : List α → α
  list? : α → Option (List α)
  ofRecord : List (String × α) → α
  /-- The fields of the given names, in their order. -/
  fields? : List String → α → Option (List α)
  /-- A variant that holds nothing. -/
  ofUnit : String → α
  unit? : α → Option String
  ofVariant : String → α → α
  variant? : α → Option (String × α)
  compact : α → String
  spread : α → String
  read? : String → Option α

namespace Encoding

variable {α : Type} (E : Encoding α)

/-! ### Storing -/

def ofBeat (b : Beat) : α := E.ofDouble b.beats

def ofPitch : Pitch → α
  | .melodic p octave =>
    E.ofVariant "melodic" (E.ofRecord [("class", E.ofUnit p.name), ("octave", E.ofInt octave)])
  | .drum code => E.ofVariant "drum" (E.ofText code)

def ofNote (n : Note) : α :=
  E.ofRecord [("pitch", E.ofPitch n.pitch), ("duration", E.ofBeat n.duration),
    ("velocity", E.ofSingle n.velocity)]

def ofChord (c : Chord) : α :=
  E.ofRecord [("notes", E.ofList (c.notes.map E.ofNote)), ("duration", E.ofBeat c.duration)]

def ofPattern (p : Pattern) : α := E.ofRecord [("chords", E.ofList (p.chords.map E.ofChord))]

def ofTrack (t : Track) : α :=
  E.ofRecord [("instrument", E.ofText t.instrument),
    ("patterns", E.ofList (t.patterns.map E.ofPattern))]

def ofScore (s : Score) : α :=
  E.ofRecord [("tempo", E.ofInt s.tempo), ("tracks", E.ofList (s.tracks.map E.ofTrack))]

/-! ### Loading -/

def listOf? {β : Type} (f : α → Option β) (v : α) : Option (List β) :=
  (E.list? v).bind fun vs => vs.mapM f

def beat? (v : α) : Option Beat := (E.double? v).map Beat.ofFloat

def pitchClass? (v : α) : Option PitchClass :=
  (E.unit? v).bind fun name => PitchClass.all.find? fun p => p.name = name

def melodic? (v : α) : Option Pitch :=
  match E.fields? ["class", "octave"] v with
  | some [p, octave] =>
    (E.pitchClass? p).bind fun p =>
      (E.int? (-0x80000000) 0x7FFFFFFF octave).map fun o => .melodic p o
  | _ => none

def pitch? (v : α) : Option Pitch :=
  match E.variant? v with
  | some (name, held) =>
    if name = "melodic" then E.melodic? held
    else if name = "drum" then (E.text? held).map .drum
    else none
  | none => none

def note? (v : α) : Option Note :=
  match E.fields? ["pitch", "duration", "velocity"] v with
  | some [p, d, velocity] =>
    (E.pitch? p).bind fun p => (E.beat? d).bind fun d => (E.single? velocity).map fun v => ⟨p, d, v⟩
  | _ => none

def chord? (v : α) : Option Chord :=
  match E.fields? ["notes", "duration"] v with
  | some [notes, d] => (E.listOf? E.note? notes).bind fun ns => (E.beat? d).map fun d => ⟨ns, d⟩
  | _ => none

def pattern? (v : α) : Option Pattern :=
  match E.fields? ["chords"] v with
  | some [chords] => (E.listOf? E.chord? chords).map Pattern.mk
  | _ => none

def track? (v : α) : Option Track :=
  match E.fields? ["instrument", "patterns"] v with
  | some [name, patterns] =>
    (E.text? name).bind fun name => (E.listOf? E.pattern? patterns).map fun ps => ⟨name, ps⟩
  | _ => none

def score? (v : α) : Option Score :=
  match E.fields? ["tempo", "tracks"] v with
  | some [tempo, tracks] =>
    (E.int? 0 Number.max32 tempo).bind fun n =>
      (E.listOf? E.track? tracks).map fun ts => ⟨n.toNat, ts⟩
  | _ => none

/-! ### Scores as text -/

def loadScore? (s : String) : Option Score := (E.read? s).bind E.score?

def storeScore (s : Score) : String := E.compact (E.ofScore s)

def showScore (s : Score) : String := E.spread (E.ofScore s)

end Encoding

end ScoreSynth
