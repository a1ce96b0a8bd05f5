import ScoreSynth.Proofs.Json.Encoding
import ScoreSynth.Proofs.Notation.WellFormed
import ScoreSynth.Proofs.Prose.Chords

/-!
# Consistent scores

Every way to make a score gives it a tempo and gives each of its chords the length of its longest
note, and storing a score and loading it again keeps both, although it may move a length. A score
that is loaded from any other text has the tempo and the lengths that stand in the text.
-/

namespace ScoreSynth

def Chord.Measured (c : Chord) : Prop :=
  c.duration.ticks = ((c.notes.map (·.duration.ticks)).max?).getD 0

instance (c : Chord) : Decidable c.Measured := inferInstanceAs (Decidable (_ = _))

structure Score.Consistent (s : Score) : Prop where
  tempo_pos : 1 ≤ s.tempo
  measured : ∀ t ∈ s.tracks, ∀ c ∈ t.chords, c.Measured

/-- The scores that are compiled, converted, put together from measured chords, or stored with the
encoding and loaded again. -/
inductive Score.Obtained {α : Type} (E : Encoding α) : Score → Prop
  | compiled (source : String) : Obtained E (Notation.compile source)
  | converted (text : String) : Obtained E (Prose.score text)
  | built (tempo : Nat) (tracks : List Track) (htempo : tempo ≤ Number.max32)
      (hchords : ∀ t ∈ tracks, ∀ c ∈ t.chords, ∃ notes, c = .ofNotes notes) :
    Obtained E (.ofTracks tempo tracks)
  | loaded {s s' : Score} (h : Obtained E s)
      (hload : E.loadScore? (E.storeScore s) = some s') : Obtained E s'
  | shown {s s' : Score} (h : Obtained E s)
      (hload : E.loadScore? (E.showScore s) = some s') : Obtained E s'

/-! ## Measured chords -/

section
variable {c : Chord}

theorem Chord.measured_ofNotes (notes : List Note) : (Chord.ofNotes notes).Measured := by
  show (Beat.longest (notes.map (·.duration))).ticks = _
  rw [Beat.ticks_longest, List.map_map]
  rfl

theorem Chord.measured_iff : c.Measured ↔ (c.notes = [] ∧ c.duration = .zero) ∨
    (∃ n ∈ c.notes, n.duration = c.duration) ∧
      ∀ n ∈ c.notes, n.duration.ticks ≤ c.duration.ticks := by
  unfold Measured
  by_cases hempty : c.notes = []
  · simp only [hempty, List.map_nil, List.max?_nil, Option.getD_none, List.not_mem_nil, false_and,
      exists_false, or_false, true_and]
    exact ⟨fun h => Beat.ext_ticks h, congrArg Beat.ticks⟩
  · have hmax : ∀ k, ((c.notes.map (·.duration.ticks)).max?).getD 0 = k ↔
        (∃ n ∈ c.notes, n.duration.ticks = k) ∧ ∀ n ∈ c.notes, n.duration.ticks ≤ k := by
      intro k
      cases hk : (c.notes.map (·.duration.ticks)).max? with
      | none => exact absurd (List.map_eq_nil_iff.mp (List.max?_eq_none_iff.mp hk)) hempty
      | some m =>
        obtain ⟨hm, hle⟩ := List.max?_eq_some_iff.mp hk
        obtain ⟨n, hn, rfl⟩ := List.mem_map.mp hm
        rw [List.forall_mem_map] at hle
        rw [Option.getD_some]
        constructor
        · rintro rfl
          exact ⟨⟨n, hn, rfl⟩, hle⟩
        · rintro ⟨⟨n', hn', rfl⟩, hle'⟩
          exact le_antisymm (hle' n hn) (hle n' hn')
    rw [eq_comm, hmax]
    simp only [hempty, false_and, false_or]
    refine and_congr_left fun _ => exists_congr fun n => and_congr_right fun _ => ?_
    exact ⟨fun h => Beat.ext_ticks h, congrArg Beat.ticks⟩

end

/-! ## Storing and loading -/

namespace Encoding

variable {α : Type} {E : Encoding α}

section
variable (hE : E.Steady)
include hE

theorem Steady.duration_of_note? {n n' : Note} (h : E.note? (E.ofNote n) = some n') :
    E.beat? (E.ofBeat n.duration) = some n'.duration := by
  rw [hE.toLegible.note?_ofNote, Option.bind_eq_some_iff] at h
  obtain ⟨p, -, h⟩ := h
  obtain ⟨d, hd, h⟩ := Option.bind_eq_some_iff.mp h
  obtain ⟨v, -, rfl⟩ := Option.map_eq_some_iff.mp h
  exact hd

theorem Steady.measured_of_chord? {c c' : Chord} (hc : c.Measured)
    (h : E.chord? (E.ofChord c) = some c') : c'.Measured := by
  rw [hE.toLegible.chord?_ofChord] at h
  obtain ⟨ns, hns, h⟩ := Option.bind_eq_some_iff.mp h
  obtain ⟨d, hd, rfl⟩ := Option.map_eq_some_iff.mp h
  rw [Chord.measured_iff] at hc ⊢
  rcases hc with ⟨hempty, hzero⟩ | ⟨⟨n, hn, hlongest⟩, hle⟩
  · rw [hempty] at hns
    rw [hzero] at hd
    exact .inl ⟨(Option.some.inj hns).symm, hE.beat?_zero hd⟩
  · refine .inr ⟨?_, fun m' hm' => ?_⟩
    · -- the text of the chord's length is that of its longest note
      obtain ⟨n', hn', hread⟩ := exists_of_mem_mapM hns hn
      have hn := hE.duration_of_note? hread
      rw [hlongest, hd] at hn
      exact ⟨n', hn', (Option.some.inj hn).symm⟩
    · obtain ⟨m, hm, hread⟩ := exists_of_mapM hns hm'
      exact hE.beat?_mono (hle m hm) (hE.duration_of_note? hread) hd

end

theorem Steady.measured_of_track? (hE : E.Steady) {t t' : Track} (ht : ∀ c ∈ t.chords, c.Measured)
    (h : E.track? (E.ofTrack t) = some t') : ∀ c' ∈ t'.chords, c'.Measured := by
  intro c' hc'
  rw [hE.toLegible.track?_ofTrack] at h
  obtain ⟨ps, hps, rfl⟩ := Option.map_eq_some_iff.mp h
  obtain ⟨p', hp', hcp⟩ := List.mem_flatMap.mp hc'
  obtain ⟨p, hp, hpat⟩ := exists_of_mapM hps hp'
  rw [hE.toLegible.pattern?_ofPattern] at hpat
  obtain ⟨cs, hcs, rfl⟩ := Option.map_eq_some_iff.mp hpat
  obtain ⟨c, hc, hchord⟩ := exists_of_mapM hcs hcp
  exact hE.measured_of_chord? (ht c (List.mem_flatMap.mpr ⟨p, hp, hc⟩)) hchord

theorem Steady.consistent_of_score? (hE : E.Steady) {s s' : Score} (hs : s.Consistent)
    (hle : s.tempo ≤ Number.max32) (h : E.score? (E.ofScore s) = some s') :
    s'.Consistent ∧ s'.tempo ≤ Number.max32 := by
  rw [hE.toLegible.score?_ofScore hle] at h
  obtain ⟨ts, hts, rfl⟩ := Option.map_eq_some_iff.mp h
  refine ⟨⟨hs.tempo_pos, fun t' ht' => ?_⟩, hle⟩
  obtain ⟨t, ht, htrack⟩ := exists_of_mapM hts ht'
  exact hE.measured_of_track? (hs.measured t ht) htrack

end Encoding

/-! ## All scores but those of other texts -/

namespace Score

theorem consistent_compile (source : String) :
    (Notation.compile source).Consistent ∧ (Notation.compile source).tempo ≤ Number.max32 := by
  have h := Notation.compiled_compile source
  exact ⟨⟨h.tempo_pos, fun t ht c hc => ((h.tracks t ht).of_mem_chords hc).duration_eq⟩, h.tempo_le⟩

theorem consistent_prose (text : String) :
    (Prose.score text).Consistent ∧ (Prose.score text).tempo ≤ Number.max32 := by
  have htempo : (Prose.score text).tempo = 120 := rfl
  rw [htempo]
  refine ⟨⟨by rw [htempo]; decide, ?_⟩, by decide⟩
  rw [Prose.score_eq]
  intro t ht c hc
  obtain rfl := List.mem_singleton.mp ht
  rw [Prose.chords_track] at hc
  obtain ⟨x, -, rfl⟩ := List.mem_map.mp hc
  rw [Prose.chord_eq_ofNotes]
  exact Chord.measured_ofNotes _

theorem consistent_ofTracks {tempo : Nat} {tracks : List Track} (htempo : tempo ≤ Number.max32)
    (hchords : ∀ t ∈ tracks, ∀ c ∈ t.chords, ∃ notes, c = .ofNotes notes) :
    (ofTracks tempo tracks).Consistent ∧ (ofTracks tempo tracks).tempo ≤ Number.max32 := by
  refine ⟨⟨Nat.le_max_right _ _, fun t ht c hc => ?_⟩, max_le htempo (by decide)⟩
  obtain ⟨notes, rfl⟩ := hchords t ht c hc
  exact Chord.measured_ofNotes notes

/-- A score has a tempo and measured chords, unless it comes from a text the program did not write. -/
theorem obtained_consistent {α : Type} {E : Encoding α} (hE : E.Steady) {s : Score}
    (h : Obtained E s) : s.Consistent := by
  suffices hs : s.Consistent ∧ s.tempo ≤ Number.max32 from hs.1
  induction h with
  | compiled source => exact consistent_compile source
  | converted text => exact consistent_prose text
  | built tempo tracks htempo hchords => exact consistent_ofTracks htempo hchords
  | loaded _ hload ih =>
    rw [hE.toLegible.loadScore?_storeScore] at hload
    exact hE.consistent_of_score? ih.1 ih.2 hload
  | shown _ hload ih =>
    rw [hE.toLegible.loadScore?_showScore] at hload
    exact hE.consistent_of_score? ih.1 ih.2 hload

theorem obtained_consistent_stored :
    let s := ofTracks 0 [⟨"a", [⟨[.ofNotes [.melodic .c 4 .half], .empty]⟩]⟩]
    Json.encoding.Steady ∧
      ∃ s' ∈ Json.loadScore? (Json.storeScore s), Obtained Json.encoding s' ∧ s'.Consistent := by
  intro s
  have hs : Obtained Json.encoding s := by
    refine .built 0 _ (by decide) fun t ht c hc => ?_
    obtain rfl := List.mem_singleton.mp ht
    rcases List.mem_cons.mp hc with rfl | hc
    · exact ⟨_, rfl⟩
    · obtain rfl := List.mem_singleton.mp hc
      exact ⟨[], rfl⟩
  have hload : Json.loadScore? (Json.storeScore s) = some s := by decide +kernel
  have hsteady := Json.exact.steady
  exact ⟨hsteady, s, hload, .loaded hs hload, obtained_consistent hsteady (.loaded hs hload)⟩

/-- A text may ask for no tempo, and for chords that outlast their notes. -/
theorem loaded_inconsistent :
    (∃ s ∈ Json.loadScore? "\x7b\"tempo\":0,\"tracks\":[]\x7d", s.tempo = 0) ∧
      ∃ s ∈ Json.loadScore? ("\x7b\"tempo\":1,\"tracks\":[\x7b\"instrument\":\"a\",\"patterns\":" ++
          "[\x7b\"chords\":[\x7b\"notes\":[],\"duration\":1.0\x7d]\x7d]\x7d]\x7d"),
        ∃ t ∈ s.tracks, ∃ c ∈ t.chords, ¬c.Measured := by
  decide +kernel

end Score

end ScoreSynth
