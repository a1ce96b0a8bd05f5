import ScoreSynth.Prose.Conversion

/-!
# The chords of a prose

However a text is cut into runs, there is a chord for each of its characters, in order: without notes
for a space and with one note for any other.
-/

namespace ScoreSynth.Prose

theorem flatten_runs (current text : List Char) : (runs current text).flatten = current ++ text := by
  induction text generalizing current with
  | nil =>
    cases current with
    | nil => rfl
    | cons c cs => simp [runs]
  | cons c text ih =>
    simp only [runs]
    split
    · simp [ih]
    · simp [ih]

def track (text : List Char) : Track := ⟨"piano", patterns text⟩

theorem score_eq (text : String) : score text = ⟨Score.defaultTempo, [track text.toList]⟩ := rfl

theorem chords_track (text : List Char) : (track text).chords = text.map chord := by
  have hp : ∀ run, (pattern run).chords = run.map chord := fun _ => rfl
  unfold Track.chords track patterns
  cases text with
  | nil => rfl
  | cons c text =>
    simp only [List.isEmpty_cons, Bool.false_eq_true, if_false, List.flatMap_map, hp]
    rw [List.flatMap_def, ← List.map_flatten, flatten_runs]
    rfl

theorem chord_of_ne {c : Char} (h : c ≠ ' ') : chord c =
    .ofNotes [(Note.melodic (scale.getD (degree c).1 .c) (degree c).2 (weight c).1).withVelocity
      (weight c).2] := by
  unfold chord
  rw [if_neg h]

theorem isEmpty_chord (c : Char) : (chord c).isEmpty = (c == ' ') := by
  by_cases h : c = ' '
  · subst h
    rfl
  · rw [chord_of_ne h]
    simp [Chord.ofNotes, Chord.isEmpty, h]

theorem chord_eq_ofNotes (c : Char) : chord c = .ofNotes (chord c).notes := by
  by_cases h : c = ' '
  · subst h
    rfl
  · rw [chord_of_ne h]
    rfl

end ScoreSynth.Prose
