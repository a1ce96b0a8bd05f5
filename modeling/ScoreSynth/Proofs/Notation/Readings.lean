import Mathlib.Data.List.Basic
import ScoreSynth.Notation.Reader

/-!
# What a reader makes of each level

The notes that a chord, a pattern and a track are read with, and the diagnostics on the tokens that
were refused, in terms of the pieces that the text is cut into.
-/

namespace ScoreSynth.Notation

def accepted (drums : Bool) (token : List Char) : Option Note :=
  match Token.note drums token with
  | .ok n => some n
  | .error _ => none

def refused (drums : Bool) (token : List Char) : Option Diagnostic :=
  match Token.note drums token with
  | .ok _ => none
  | .error d => some d

/-! ## Readings of lists -/

section
variable {α β : Type}

theorem Reading.diagnostics_all (rs : List (Reading α)) :
    (Reading.all rs).diagnostics = rs.flatMap Reading.diagnostics := by
  unfold Reading.all Reading.diagnostics
  rw [List.filterMap_flatMap]

theorem flatMap_blank {f : List Char → List α}
    (h : ∀ p, Text.allBlank p = true → f p = []) (ps : List (List Char)) :
    ps.flatMap f = (nonBlank ps).flatMap f := by
  induction ps with
  | nil => rfl
  | cons p ps ih =>
    unfold nonBlank at *
    by_cases hp : Text.allBlank p = true
    · simp [hp, h p hp, ih]
    · simp [hp, ih]

theorem filterMap_blank {f : List Char → Option α}
    (h : ∀ p, Text.allBlank p = true → f p = none) (ps : List (List Char)) :
    ps.filterMap f = (nonBlank ps).filterMap f := by
  rw [List.filterMap_eq_flatMap_toList, List.filterMap_eq_flatMap_toList]
  apply flatMap_blank
  intro p hp
  rw [h p hp]
  rfl

end

/-! ## Tokens and chords -/

variable (drums : Bool)

theorem value_read (token : List Char) : (Token.read drums token).value = accepted drums token := by
  unfold Token.read accepted
  cases Token.note drums token <;> rfl

theorem diagnostics_read (token : List Char) :
    (Token.read drums token).diagnostics = (refused drums token).toList := by
  unfold Token.read refused Reading.diagnostics
  cases Token.note drums token with
  | error d => rfl
  | ok n =>
    simp only
    split <;> rfl

theorem value_chord (text : List Char) :
    (chord drums text).value = .ofNotes ((text.splitOn '+').filterMap (accepted drums)) := by
  have hf : (fun token => (Token.read drums token).value) = accepted drums :=
    funext (value_read drums)
  rw [← hf]
  simp only [chord, Reading.all, List.map_map, List.filterMap_map]
  rfl

theorem diagnostics_chord (text : List Char) :
    (chord drums text).diagnostics = (text.splitOn '+').filterMap (refused drums) := by
  show (Reading.all ((text.splitOn '+').map (Token.read drums))).diagnostics = _
  rw [Reading.diagnostics_all, List.flatMap_map]
  simp only [diagnostics_read, List.filterMap_eq_flatMap_toList]

/-! ## Patterns and tracks -/

theorem chords_pattern (text : List Char) : (pattern drums text).value.chords =
    (nonBlank (text.splitOn ',')).map fun piece => (chord drums piece).value := by
  simp only [pattern, Reading.all, List.map_map, List.filterMap_map]
  rw [filterMap_blank fun p hp => by simp [chordPiece, hp], ← List.filterMap_eq_map']
  refine List.filterMap_congr fun p hp => ?_
  have hne := (List.mem_filter.mp hp).2
  simp_all [chordPiece]

theorem diagnostics_pattern (text : List Char) : (pattern drums text).diagnostics =
    (nonBlank (text.splitOn ',')).flatMap fun piece => (chord drums piece).diagnostics := by
  show (Reading.all ((text.splitOn ',').map (chordPiece drums text))).diagnostics = _
  rw [Reading.diagnostics_all, List.flatMap_map, flatMap_blank fun p hp => by
    simp [chordPiece, hp, Reading.diagnostics, Remark.diagnostic?]]
  refine List.flatMap_congr fun p hp => ?_
  have hne := (List.mem_filter.mp hp).2
  simp_all [chordPiece, Reading.diagnostics]

theorem patterns_track (name body : List Char) : (track name body).value.patterns =
    (nonBlank (body.splitOn '|')).map fun text => (pattern (isDrumInstrument name) text).value := by
  simp only [track, Reading.all, List.map_map]
  rfl

theorem diagnostics_track (name body : List Char) : (track name body).diagnostics =
    (nonBlank (body.splitOn '|')).flatMap fun text =>
      (pattern (isDrumInstrument name) text).diagnostics := by
  show (Reading.all ((nonBlank (body.splitOn '|')).map
    (pattern (isDrumInstrument name)))).diagnostics = _
  rw [Reading.diagnostics_all, List.flatMap_map]

end ScoreSynth.Notation
