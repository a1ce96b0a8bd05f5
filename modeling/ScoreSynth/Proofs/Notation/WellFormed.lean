import ScoreSynth.Proofs.Notation.Compiled

/-!
# Well-formed scores

What may be taken for granted of every compiled score: names that can stand in front of a colon,
notes that sound and fit their track, and chords as long as their longest note.
-/

namespace ScoreSynth

theorem Beat.ticks_longer (a b : Beat) : (longer a b).ticks = max a.ticks b.ticks := by
  unfold longer
  split
  · rename_i h
    exact (Nat.max_eq_right h).symm
  · rename_i h
    exact (Nat.max_eq_left (Nat.le_of_not_le h)).symm

theorem Beat.ticks_longest (bs : List Beat) :
    (longest bs).ticks = ((bs.map (·.ticks)).max?).getD 0 := by
  have hfold : ∀ (bs : List Beat) (a : Beat),
      (bs.foldl longer a).ticks = (bs.map (·.ticks)).foldl max a.ticks := by
    intro bs
    induction bs with
    | nil => intro a; rfl
    | cons b bs ih => intro a; simp [ih, ticks_longer]
  cases bs with
  | nil => rfl
  | cons b bs => simp [longest, hfold, List.max?, ticks_longer, zero]

namespace Notation

/-- A name in front of a colon that is read as itself. -/
structure WellNamed (name : List Char) : Prop where
  ne_nil : name ≠ []
  first : ∀ c ∈ name.head?, Text.isBlank c = false
  last : ∀ c ∈ name.getLast?, Text.isBlank c = false
  semicolon : ';' ∉ name
  colon : ':' ∉ name
  slashes : ¬['/', '/'] <:+: name
  not_tempo : name.map Char.toLower ≠ "tempo".toList

def IsHit (pitch : Pitch) : Prop :=
  ∃ code, pitch = .drum code ∧ code ≠ "" ∧
    ∀ c ∈ code.toList, ('a' ≤ c ∧ c ≤ 'z') ∨ ('0' ≤ c ∧ c ≤ '9') ∨ c = '_'

def IsMelodic (pitch : Pitch) : Prop :=
  ∃ p octave, pitch = .melodic p octave ∧ 0 ≤ octave ∧ octave ≤ 10

theorem Nameable.wellNamed {name : List Char} (h : Nameable name) : WellNamed name where
  ne_nil := h.ne_nil
  first := h.tight.1
  last := h.tight.2
  semicolon := h.semicolon
  colon := h.colon
  slashes := Text.apart_iff.mp h.slashes
  not_tempo := by simpa [Segment.isTempoName] using h.not_tempo

theorem le_iff_toNat_le {c d : Char} : c ≤ d ↔ c.toNat ≤ d.toNat := Iff.rfl

theorem isLowerCode_ranges {c : Char} (h : isLowerCode c = true) :
    ('a' ≤ c ∧ c ≤ 'z') ∨ ('0' ≤ c ∧ c ≤ '9') ∨ c = '_' := by
  simp only [le_iff_toNat_le]
  rcases isLowerCode_iff.mp h with (h | h) | h
  · exact .inl (Text.isLower_iff.mp h)
  · exact .inr (.inl (Text.isDigit_iff.mp h))
  · exact .inr (.inr h)

theorem Fits.isHit {pitch : Pitch} (h : Fits true pitch) : IsHit pitch := by
  cases pitch with
  | melodic p octave => exact absurd h.1 (by decide)
  | drum code =>
    refine ⟨code, rfl, ?_, fun c hc => isLowerCode_ranges (h.2.2 c hc)⟩
    rintro rfl
    exact h.2.1 rfl

theorem Fits.isMelodic {pitch : Pitch} (h : Fits false pitch) : IsMelodic pitch := by
  cases pitch with
  | melodic p octave => exact ⟨p, octave, rfl, h.2⟩
  | drum code => exact absurd h.1 (by decide)

/-- A name without blanks around it names the drums if it says so in any case. -/
theorem isDrumInstrument_iff {name : List Char} (h : Text.Tight name) :
    isDrumInstrument name = true ↔ name.map Char.toLower = "drums".toList := by
  unfold isDrumInstrument
  rw [h.trim_eq, beq_iff_eq]

theorem CompiledChord.duration_eq {drums : Bool} {c : Chord} (h : CompiledChord drums c) :
    c.duration.ticks = ((c.notes.map (·.duration.ticks)).max?).getD 0 := by
  have hd : c.duration = Beat.longest (c.notes.map (·.duration)) :=
    congrArg Chord.duration h.eq_ofNotes
  rw [hd, Beat.ticks_longest, List.map_map]
  rfl

theorem CompiledTrack.of_mem_chords {t : Track} (h : CompiledTrack t) {c : Chord}
    (hc : c ∈ t.chords) : CompiledChord t.isDrums c := by
  obtain ⟨p, hp, hcp⟩ := List.mem_flatMap.mp hc
  exact h.chords p hp c hcp

/-- Whatever the source says, the score it compiles to is well formed. -/
theorem compile_well_formed (source : String) :
    1 ≤ (compile source).tempo ∧ ∀ t ∈ (compile source).tracks,
      WellNamed t.instrument.toList ∧ ∀ c ∈ t.chords,
        c.duration.ticks = ((c.notes.map (·.duration.ticks)).max?).getD 0 ∧
        ∀ n ∈ c.notes, 1 ≤ n.duration.ticks ∧ n.velocity = 1.0 ∧
          if t.instrument.toList.map Char.toLower = "drums".toList
          then IsHit n.pitch else IsMelodic n.pitch := by
  have h := compiled_compile source
  refine ⟨h.tempo_pos, fun t ht => ?_⟩
  have hname := (h.tracks t ht).name
  refine ⟨hname.wellNamed, fun c hc => ?_⟩
  have hchord := (h.tracks t ht).of_mem_chords hc
  refine ⟨hchord.duration_eq, fun n hn => ?_⟩
  obtain ⟨hfits, hpos, hvelocity⟩ := hchord.notes n hn
  refine ⟨hpos, hvelocity, ?_⟩
  by_cases hd : t.instrument.toList.map Char.toLower = "drums".toList
  · rw [if_pos hd]
    rw [Track.isDrums, (isDrumInstrument_iff hname.tight).mpr hd] at hfits
    exact hfits.isHit
  · rw [if_neg hd]
    have hno : isDrumInstrument t.instrument.toList = false :=
      Bool.eq_false_iff.mpr fun h => hd ((isDrumInstrument_iff hname.tight).mp h)
    rw [Track.isDrums, hno] at hfits
    exact hfits.isMelodic

end Notation

end ScoreSynth
