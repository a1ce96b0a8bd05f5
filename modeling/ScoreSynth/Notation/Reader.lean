import ScoreSynth.Notation.Token

/-!
# Reading a score

Separators nest: `;` between segments, `:` between an instrument and its body, `|` between patterns,
`,` between chords and `+` between the tokens of a chord. Blank segments, patterns and chords are
passed over; a blank token is dropped with a report. Each segment is read on its own, so the score
of a text is put together from the readings of its segments.
-/

namespace ScoreSynth.Notation

/-- The text without its comments, which run from `//` to the end of the line. -/
def withoutComments (source : List Char) : List Char :=
  ['\n'].intercalate ((Text.lines source).map Text.beforeSlashes)

def chord (drums : Bool) (text : List Char) : Reading Chord :=
  let r := Reading.all ((text.splitOn '+').map (Token.read drums))
  ⟨.ofNotes (r.value.filterMap id), r.remarks⟩

/-- The reading of one piece between commas; a blank piece is no chord. -/
def chordPiece (drums : Bool) (pattern piece : List Char) : Reading (Option Chord) :=
  if Text.allBlank piece then ⟨none, [.blankChord (Text.trim pattern)]⟩
  else
    let r := chord drums piece
    ⟨some r.value, r.remarks⟩

def pattern (drums : Bool) (text : List Char) : Reading Pattern :=
  let r := Reading.all ((text.splitOn ',').map (chordPiece drums text))
  ⟨⟨r.value.filterMap id⟩, r.remarks⟩

def nonBlank (pieces : List (List Char)) : List (List Char) :=
  pieces.filter fun p => !Text.allBlank p

def track (name body : List Char) : Reading Track :=
  let r := Reading.all ((nonBlank (body.splitOn '|')).map (pattern (isDrumInstrument name)))
  ⟨⟨String.ofList name, r.value⟩, r.remarks⟩

inductive Segment where
  | tempo (bpm : Nat)
  | track (t : Track)
  | nothing
  deriving DecidableEq

namespace Segment

def tempo? : Segment → Option Nat
  | tempo bpm => some bpm
  | _ => none

def track? : Segment → Option Track
  | track t => some t
  | _ => none

def dropped (defect : Defect) (text : List Char) : Reading Segment :=
  ⟨.nothing, [.dropped (.on defect text)]⟩

def isTempoName (name : List Char) : Bool := name.map Char.toLower == "tempo".toList

def ofNamed (text name body : List Char) : Reading Segment :=
  if name.isEmpty then dropped .emptyInstrument text
  else if isTempoName name then
    match (Number.unsigned? Number.max32 body).filter (0 < ·) with
    | some bpm => ⟨.tempo bpm, []⟩
    | none => dropped .invalidTempo text
  else if body.isEmpty then dropped .emptyBody text
  else
    let r := Notation.track name body
    ⟨.track r.value, r.remarks⟩

def read (text : List Char) : Reading Segment :=
  match Text.cut ':' text with
  | none => dropped .missingColon text
  | some (name, body) => ofNamed text (Text.trim name) (Text.trim body)

end Segment

def segments (source : List Char) : Reading (List Segment) :=
  .all ((nonBlank ((withoutComments source).splitOn ';')).map Segment.read)

/-- The last tempo given holds for the whole score. -/
def scoreOf (segments : List Segment) : Score :=
  .ofTracks ((segments.filterMap Segment.tempo?).getLast?.getD Score.defaultTempo)
    (segments.filterMap Segment.track?)

def readChars (source : List Char) : Reading Score :=
  let r := segments source
  ⟨scoreOf r.value, r.remarks⟩

def read (source : String) : Reading Score := readChars source.toList

def compile (source : String) : Score := (read source).value

theorem tempo_scoreOf_pos (s : List Segment) : 0 < (scoreOf s).tempo := by
  simp only [scoreOf, Score.ofTracks]; omega

end ScoreSynth.Notation
