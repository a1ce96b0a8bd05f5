import ScoreSynth.Command.Run
import ScoreSynth.Proofs.Beat.Written
import ScoreSynth.Proofs.Notation.RoundTrip
import ScoreSynth.Proofs.Prose.Chords
import ScoreSynth.Proofs.Score.Voices

/-!
# Prose written as a score

A score that a text is converted to can be written and read again without a remark. Nothing is lost
but how loud its notes are, as velocities are not written.
-/

namespace ScoreSynth

/-! ## Velocities are not written -/

def Note.levelled (n : Note) : Note := { n with velocity := 1.0 }

def Chord.levelled (c : Chord) : Chord := { c with notes := c.notes.map Note.levelled }

def Pattern.levelled (p : Pattern) : Pattern := ⟨p.chords.map Chord.levelled⟩

def Track.levelled (t : Track) : Track := { t with patterns := t.patterns.map Pattern.levelled }

def Score.levelled (s : Score) : Score := { s with tracks := s.tracks.map Track.levelled }

@[simp] theorem Chord.isEmpty_levelled (c : Chord) : c.levelled.isEmpty = c.isEmpty := by
  unfold levelled isEmpty
  rw [List.isEmpty_map]

theorem Track.chords_levelled (t : Track) : t.levelled.chords = t.chords.map Chord.levelled := by
  unfold levelled chords
  rw [List.flatMap_map, List.map_flatMap]
  rfl

theorem Track.duration_levelled (t : Track) : t.levelled.duration = t.duration := by
  rw [duration_eq, duration_eq, chords_levelled, List.map_map]
  rfl

theorem Track.voiced_levelled (t : Track) : t.levelled.voiced = t.voiced.map Chord.levelled := by
  unfold voiced
  rw [chords_levelled, List.filter_map]
  congr 2
  funext c
  simp

theorem Score.noteCount_levelled (s : Score) : s.levelled.noteCount = s.noteCount := by
  have hn : s.levelled.notes = s.notes.map Note.levelled := by
    unfold notes levelled
    rw [List.flatMap_map, List.map_flatMap, List.flatMap_assoc, List.flatMap_assoc]
    apply List.flatMap_congr
    intro t _
    rw [Track.chords_levelled, List.flatMap_map]
    rfl
  unfold noteCount
  rw [hn, List.length_map]

theorem Score.restsTakeNoTime_levelled {s : Score} (h : s.RestsTakeNoTime) :
    s.levelled.RestsTakeNoTime := by
  intro t ht c hc he
  obtain ⟨u, hu, rfl⟩ := List.mem_map.mp ht
  rw [Track.chords_levelled] at hc
  obtain ⟨d, hd, rfl⟩ := List.mem_map.mp hc
  exact h u hu d hd (List.map_eq_nil_iff.mp he)

namespace Notation

theorem write_levelled (s : Score) : write s.levelled = write s := by
  have hpattern : ∀ p : Pattern, writePattern p.levelled = writePattern p := fun _ =>
    writePattern_map fun c _ =>
      ⟨c.isEmpty_levelled, writeChord_map (f := Note.levelled) (fun _ _ => rfl) _ _⟩
  have htrack : ∀ t : Track, writeTrack t.levelled = writeTrack t := fun _ =>
    writeTrack_map fun p _ => hpattern p
  unfold write
  rw [Score.levelled, writeChars_map fun t _ => htrack t]

/-- A score as reading gives it comes back from its text without its empty parts. -/
theorem Compiled.read_write {s : Score} (h : Compiled s)
    (hr : ∀ t ∈ s.tracks, Text.Apart '\r' '\n' t.instrument.toList)
    (hd : ∀ n ∈ s.notes, n.duration.ticks < 2 ^ 51) : read (write s) = ⟨s.pruned, []⟩ := by
  have hread := readChars_writeChars (h.readable_pruned hr fun n hn => Beat.parse?_write (hd n hn))
  rw [h.pruned.reread_id] at hread
  unfold read write
  rw [String.toList_ofList]
  exact hread

end Notation

/-! ## What a text is converted to -/

namespace Prose

theorem octave_le (c : Char) : (degree c).2 ≤ highestOctave := by
  unfold degree
  by_cases hl : c.isLower = true
  · rw [if_pos hl]
    exact Nat.min_le_left _ _
  · rw [if_neg hl]
    by_cases hd : c.isDigit = true
    · rw [if_pos hd]
      exact (by decide : baseOctave ≤ highestOctave)
    · rw [if_neg hd]
      exact (by decide : baseOctave ≤ highestOctave)

theorem weight_fst (c : Char) :
    (weight c).1 = .one ∨ (weight c).1 = .threeQuarters ∨ (weight c).1 = .half := by
  unfold weight
  by_cases hv : isVowel c.toLower = true
  · rw [if_pos hv]
    exact .inl rfl
  · rw [if_neg hv]
    by_cases hp : isPunctuation c = true
    · rw [if_pos hp]
      exact .inr (.inl rfl)
    · rw [if_neg hp]
      exact .inr (.inr rfl)

/-- The note of a character has a pitch that can be read and lasts a beat at most. -/
theorem mem_chord {c : Char} {n : Note} (hn : n ∈ (chord c).notes) :
    Notation.Fits false n.pitch ∧ 0 < n.duration.ticks ∧ n.duration.ticks ≤ Beat.perBeat := by
  by_cases h : c = ' '
  · subst h
    cases hn
  · rw [chord_of_ne h, Chord.ofNotes, List.mem_singleton] at hn
    subst hn
    refine ⟨⟨rfl, Int.natCast_nonneg _, ?_⟩, ?_⟩
    · have ho := octave_le c
      have hg : (highestOctave : Int) ≤ Notation.Spelling.greatestOctave := by decide
      omega
    · show 0 < (weight c).1.ticks ∧ (weight c).1.ticks ≤ Beat.perBeat
      rcases weight_fst c with hw | hw | hw
      · rw [hw]; decide
      · rw [hw]; decide
      · rw [hw]; decide

theorem mem_notes_score {text : String} {n : Note} (hn : n ∈ (score text).levelled.notes) :
    n.duration.ticks ≤ Beat.perBeat := by
  obtain ⟨c, hc, hn⟩ := List.mem_flatMap.mp hn
  obtain ⟨t, ht, hc⟩ := List.mem_flatMap.mp hc
  rw [score_eq] at ht
  obtain rfl := List.mem_singleton.mp ht
  rw [Track.chords_levelled, chords_track, List.map_map] at hc
  obtain ⟨x, -, rfl⟩ := List.mem_map.mp hc
  obtain ⟨m, hm, rfl⟩ := List.mem_map.mp hn
  exact (mem_chord hm).2.2

theorem nameable_piano : Notation.Nameable "piano".toList where
  ne_nil := by decide
  tight := by decide
  semicolon := by decide
  colon := by decide
  slashes := Text.apart_of_not_mem (.inl (by decide))
  not_tempo := by decide

/-- But for its velocities, a converted score could have been read. -/
theorem compiled_levelled (text : String) : Notation.Compiled (score text).levelled where
  tempo_pos := by
    show 0 < Score.defaultTempo
    decide
  tempo_le := by
    show Score.defaultTempo ≤ Number.max32
    decide
  tracks := by
    intro t ht
    rw [score_eq] at ht
    obtain rfl := List.mem_singleton.mp ht
    have hpiano : isDrumInstrument "piano".toList = false := by decide
    have hdrums : (track text.toList).levelled.isDrums = false := hpiano
    refine ⟨nameable_piano, fun p hp c hc => ?_⟩
    rw [hdrums]
    have hmem : c ∈ (track text.toList).levelled.chords := List.mem_flatMap.mpr ⟨p, hp, hc⟩
    rw [Track.chords_levelled, chords_track, List.map_map] at hmem
    obtain ⟨x, -, rfl⟩ := List.mem_map.mp hmem
    constructor
    · intro n hn
      obtain ⟨m, hm, rfl⟩ := List.mem_map.mp hn
      obtain ⟨hfits, hpos, -⟩ := mem_chord hm
      exact ⟨hfits, hpos, rfl⟩
    · have hd : (chord x).levelled.duration = Beat.longest ((chord x).notes.map (·.duration)) :=
        congrArg Chord.duration (chord_eq_ofNotes x)
      have hn : (chord x).levelled.notes.map (·.duration) = (chord x).notes.map (·.duration) := by
        unfold Chord.levelled
        rw [List.map_map]
        rfl
      show (chord x).levelled = .ofNotes (chord x).levelled.notes
      unfold Chord.ofNotes
      rw [hn, ← hd]

theorem read_written (text : String) :
    Notation.read (written none text) = ⟨(score text).levelled.pruned, []⟩ := by
  show Notation.read (Notation.write (score text)) = _
  -- the levelled score has the same text, and it is one that reading could have given
  rw [← Notation.write_levelled]
  apply (compiled_levelled text).read_write
  · intro t ht
    rw [score_eq] at ht
    obtain rfl := List.mem_singleton.mp ht
    have hr : '\r' ∉ "piano".toList := by decide
    exact Text.apart_of_not_mem (.inl hr)
  · intro n hn
    exact Nat.lt_of_le_of_lt (mem_notes_score hn) (by decide)

theorem tracks_pruned (text : String) : (score text).levelled.pruned.tracks =
    if text.toList.all (· == ' ') then [] else [(track text.toList).levelled.pruned] := by
  have hv : (track text.toList).levelled.pruned.patterns = [] ↔
      text.toList.all (· == ' ') = true := by
    rw [Track.patterns_pruned_eq_nil, Track.voiced_levelled, List.map_eq_nil_iff, Track.voiced,
      chords_track, List.filter_eq_nil_iff, List.all_eq_true]
    simp [isEmpty_chord]
  show ([(track text.toList).levelled.pruned].filter fun t => !t.patterns.isEmpty) = _
  by_cases h : text.toList.all (· == ' ') = true
  · rw [if_pos h]
    simp [hv.mpr h]
  · rw [if_neg h]
    have hne := mt hv.mp h
    simp [hne]

end Prose

namespace Command

/-- A text that stands for itself and has no colon is taken as prose. -/
theorem run_loadScore {around : Surroundings} {text : String} (hdash : text ≠ "-")
    (hfile : ∀ bytes, around.file text ≠ .file bytes) (hcolon : text.contains ':' = false)
    (t : Transcript) : ∃ t',
      (loadScore around text).run t = (.ok (Notation.compile (Prose.written none text)), t') := by
  have hread : readInput around text = pure text := by
    unfold readInput
    rw [if_neg (by simpa using hdash)]
    split
    · rename_i bytes hf
      exact absurd hf (hfile bytes)
    · rfl
  unfold loadScore
  rw [hread]
  simp only [pure_bind, hcolon, Bool.false_eq_true, if_false]
  exact ⟨_, rfl⟩

end Command

namespace Prose

/--
Whatever the text, what it is written as reads without a remark, as its conversion without empty
chords and patterns and with all velocities levelled; only a text of spaces leaves no track. No length
and no note is lost, and these are the notes of an input that is no file and has no colon.
-/
theorem written_reads_back (text : String) :
    (Notation.read (written none text)).diagnostics = [] ∧
    let result := Notation.compile (written none text)
    result.tempo = (score text).tempo ∧
    result.tracks = (if text.toList.all (· == ' ') then []
      else [(⟨"piano", patterns text.toList⟩ : Track).levelled.pruned]) ∧
    Beat.sum (result.tracks.map (·.duration)) = Beat.sum ((score text).tracks.map (·.duration)) ∧
    result.noteCount = (score text).noteCount ∧
    ∀ (around : Command.Surroundings) (t : Command.Transcript), text ≠ "-" →
      (∀ bytes, around.file text ≠ .file bytes) → text.contains ':' = false →
      ∃ t', (Command.loadScore around text).run t = (.ok result, t') := by
  have hread := read_written text
  refine ⟨by rw [hread]; rfl, ?_⟩
  intro result
  have hr : result = (score text).levelled.pruned := congrArg Notation.Reading.value hread
  have hrests := Score.restsTakeNoTime_levelled (Score.restsTakeNoTime_prose text)
  refine ⟨?_, ?_, ?_, ?_, fun around t hdash hfile hcolon =>
    Command.run_loadScore hdash hfile hcolon t⟩
  · rw [hr]
    rfl
  · rw [hr]
    exact tracks_pruned text
  · rw [hr, Score.sum_durations_pruned hrests]
    show Beat.sum [(track text.toList).levelled.duration] = Beat.sum [(track text.toList).duration]
    rw [Track.duration_levelled]
  · rw [hr, Score.noteCount_pruned, Score.noteCount_levelled]

end Prose

end ScoreSynth
