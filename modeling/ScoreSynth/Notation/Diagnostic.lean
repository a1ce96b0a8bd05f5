import ScoreSynth.Text.Blank

/-!
# What a reader says about a text

Reading never fails: a piece that cannot be understood is dropped and reported. Remarks are all that
reading a text gives rise to besides the score, in the order of the text; diagnostics are the
remarks on dropped pieces.
-/

namespace ScoreSynth.Notation

inductive Defect where
  | missingColon
  | emptyInstrument
  | emptyBody
  | unmatchedToken
  | invalidDuration
  | invalidTempo
  deriving DecidableEq, Repr

namespace Defect

def name : Defect → String
  | missingColon => "MissingColon"
  | emptyInstrument => "EmptyInstrument"
  | emptyBody => "EmptyBody"
  | unmatchedToken => "UnmatchedToken"
  | invalidDuration => "InvalidDuration"
  | invalidTempo => "InvalidTempo"

def message : Defect → String
  | missingColon => "track has no ':' between instrument and notes"
  | emptyInstrument => "track has no instrument name"
  | emptyBody => "track has no notes"
  | unmatchedToken => "token does not match the note grammar"
  | invalidDuration => "duration must be greater than zero"
  | invalidTempo => "tempo must be a positive whole number of BPM"

end Defect

/-- A dropped piece of text, trimmed, and what is wrong with it. -/
structure Diagnostic where
  defect : Defect
  fragment : List Char
  deriving DecidableEq, Repr

def Diagnostic.on (defect : Defect) (piece : List Char) : Diagnostic := ⟨defect, Text.trim piece⟩

inductive Remark where
  | dropped (d : Diagnostic)
  /-- A blank chord in this pattern was passed over. -/
  | blankChord (pattern : List Char)
  /-- A drum token without readable duration lasts one beat. -/
  | assumedBeat (token : List Char)
  deriving DecidableEq, Repr

def Remark.diagnostic? : Remark → Option Diagnostic
  | dropped d => some d
  | _ => none

structure Reading (α : Type) where
  value : α
  remarks : List Remark

namespace Reading

variable {α : Type}

def diagnostics (r : Reading α) : List Diagnostic := r.remarks.filterMap Remark.diagnostic?

/-- The values in order, and the remarks one after the other. -/
def all (rs : List (Reading α)) : Reading (List α) :=
  ⟨rs.map (·.value), rs.flatMap (·.remarks)⟩

end Reading

end ScoreSynth.Notation
