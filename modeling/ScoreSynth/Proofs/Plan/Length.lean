import ScoreSynth.Proofs.Number.Exact
import ScoreSynth.Proofs.Plan.Starts
import ScoreSynth.Proofs.Score.Consistent

/-!
# The length of a plan

Of a track with notes, the longest note of the last chord with any stops last: it stops when all
chords of the track have passed. So in exact arithmetic the latest stop of a plan is the length of the
longest track after the base and the tail.
-/

namespace ScoreSynth

/-! ## Ticks -/

section
variable {c : Chord}

theorem Chord.Measured.ticks_le (h : c.Measured) {n : Note} (hn : n ∈ c.notes) :
    n.duration.ticks ≤ c.duration.ticks := by
  have hm : n.duration.ticks ∈ c.notes.map (·.duration.ticks) := List.mem_map_of_mem hn
  cases hmax : (c.notes.map (·.duration.ticks)).max? with
  | none =>
    rw [List.max?_eq_none_iff] at hmax
    rw [hmax] at hm
    cases hm
  | some k =>
    rw [Chord.Measured, hmax] at h
    rw [h]
    exact (List.max?_eq_some_iff.mp hmax).2 _ hm

theorem Chord.Measured.exists_longest (h : c.Measured) (hne : c.notes ≠ []) :
    ∃ n ∈ c.notes, n.duration.ticks = c.duration.ticks := by
  cases hmax : (c.notes.map (·.duration.ticks)).max? with
  | none =>
    rw [List.max?_eq_none_iff, List.map_eq_nil_iff] at hmax
    exact absurd hmax hne
  | some k =>
    rw [Chord.Measured, hmax] at h
    obtain ⟨n, hn, hk⟩ := List.mem_map.mp (List.max?_eq_some_iff.mp hmax).1
    exact ⟨n, hn, hk.trans h.symm⟩

end

theorem Chord.Measured.ticks_eq_zero {c : Chord} (h : c.Measured) (he : c.notes = []) :
    c.duration.ticks = 0 := by
  rw [h, he]
  rfl

section
variable {cs : List Chord} (h : ∀ c ∈ cs, c.Measured)
include h

theorem sum_ticks_eq_zero (he : ∀ c ∈ cs, c.notes = []) : (cs.map (·.duration.ticks)).sum = 0 := by
  apply List.sum_eq_zero
  intro k hk
  obtain ⟨c, hc, rfl⟩ := List.mem_map.mp hk
  exact (h c hc).ticks_eq_zero (he c hc)

/-- No note outlasts the chords. -/
theorem ticks_take_add_le {k : Nat} {c : Chord} (hc : cs[k]? = some c) {n : Note}
    (hn : n ∈ c.notes) :
    ((cs.take k).map (·.duration.ticks)).sum + n.duration.ticks ≤
      (cs.map (·.duration.ticks)).sum := by
  obtain ⟨hk, rfl⟩ := List.getElem?_eq_some_iff.mp hc
  have hle := (h _ (List.getElem_mem hk)).ticks_le hn
  have hsplit := congrArg (fun l => (l.map (·.duration.ticks)).sum) (List.take_append_drop k cs)
  rw [List.drop_eq_getElem_cons hk] at hsplit
  simp only [List.map_append, List.map_cons, List.sum_append, List.sum_cons] at hsplit
  omega

/-- Some note ends when the chords do. -/
theorem exists_ticks_take_add_eq (hne : ∃ c ∈ cs, c.notes ≠ []) :
    ∃ k c, cs[k]? = some c ∧ ∃ n ∈ c.notes,
      ((cs.take k).map (·.duration.ticks)).sum + n.duration.ticks =
        (cs.map (·.duration.ticks)).sum := by
  induction cs with
  | nil =>
    obtain ⟨c, hc, -⟩ := hne
    cases hc
  | cons c cs ih =>
    obtain ⟨hc, hcs⟩ := List.forall_mem_cons.mp h
    by_cases hrest : ∃ d ∈ cs, d.notes ≠ []
    · obtain ⟨k, d, hd, n, hn, hsum⟩ := ih hcs hrest
      refine ⟨k + 1, d, hd, n, hn, ?_⟩
      simp only [List.take_succ_cons, List.map_cons, List.sum_cons]
      omega
    · -- only chords without notes follow, and they take no time
      have hsilent : ∀ d ∈ cs, d.notes = [] := by simpa using hrest
      have hcne : c.notes ≠ [] := by
        obtain ⟨d, hd, hd'⟩ := hne
        rcases List.mem_cons.mp hd with rfl | hd
        · exact hd'
        · exact absurd (hsilent d hd) hd'
      obtain ⟨n, hn, hlongest⟩ := hc.exists_longest hcne
      refine ⟨0, c, rfl, n, hn, ?_⟩
      simp only [List.take_zero, List.map_nil, List.sum_nil, List.map_cons, List.sum_cons,
        sum_ticks_eq_zero hcs hsilent]
      omega

end

/-! ## Stops on a track -/

def Track.ticks (t : Track) : Nat := (t.chords.map (·.duration.ticks)).sum

def Track.Pitched (t : Track) : Prop :=
  ∀ c ∈ t.chords, ∀ n ∈ c.notes, ∃ p octave, n.pitch = .melodic p octave

def Plan.stops (cs : List (Command ℝ)) : Set ℝ := {x | ∃ c ∈ cs, c.stop = x}

theorem Sound.Profile.tones_ne_nil {α : Type} [Scalar α] (p : Sound.Profile α)
    (frequency length : α) (velocity : Float32) : p.tones frequency length velocity ≠ [] := by
  apply List.ne_nil_of_length_pos
  rw [length_tones, voiceCount]
  split <;> omega

namespace Plan

theorem mem_track {α : Type} [Scalar α] {t : Track} {tempo : Nat} {base tail : α} {d : Command α} :
    d ∈ track t tempo base tail ↔ ∃ k c, t.chords[k]? = some c ∧ ∃ n ∈ c.notes,
      d ∈ note t.instrument tempo (t.startOf tempo base k) tail n := by
  rw [track_eq_flatMap]
  simp only [List.mem_flatMap, Prod.exists, List.mem_zipIdx_iff_getElem?, chord]
  constructor
  · rintro ⟨c, k, hc, n, hn, hd⟩
    exact ⟨k, c, hc, n, hn, hd⟩
  · rintro ⟨k, c, hc, n, hn, hd⟩
    exact ⟨c, k, hc, n, hn, hd⟩

theorem exists_mem_note {α : Type} [Scalar α] (instrument : String) (tempo : Nat) (start tail : α)
    {n : Note} (hn : ∃ p octave, n.pitch = .melodic p octave) :
    ∃ d, d ∈ note instrument tempo start tail n := by
  obtain ⟨p, octave, hp⟩ := hn
  obtain ⟨tone, htone⟩ := List.exists_mem_of_ne_nil _
    (Sound.Profile.tones_ne_nil (Sound.Catalog.named instrument) (p.frequency octave)
      (n.duration.seconds tempo : α) n.velocity)
  unfold note
  rw [hp]
  exact ⟨_, List.mem_map_of_mem htone⟩

section
variable {tempo : Nat} {base tail : ℝ} (htail : 0 ≤ tail)
include htail

theorem stop_of_mem_note {instrument : String} {start : ℝ} {n : Note}
    (hn : ∃ p octave, n.pitch = .melodic p octave) {d : Command ℝ}
    (hd : d ∈ note instrument tempo start tail n) :
    d.stop = start + n.duration.ticks * Beat.tickLength tempo + tail := by
  obtain ⟨p, octave, hp⟩ := hn
  unfold note at hd
  rw [hp] at hd
  obtain ⟨tone, -, rfl⟩ := List.mem_map.mp hd
  rw [← Beat.seconds_eq_mul]
  have hlength : 0 ≤ (n.duration.seconds tempo : ℝ) := by
    rw [Beat.seconds_eq_mul]
    exact mul_nonneg (Nat.cast_nonneg _) (Beat.tickLength_nonneg tempo)
  exact max_eq_left (by linarith)

variable {t : Track} (hmeasured : ∀ c ∈ t.chords, c.Measured) (hpitched : t.Pitched)
  (hticks : t.ticks ≤ Number.max64)
include hmeasured hpitched hticks

theorem stop_of_mem_track {k : Nat} {c : Chord} (hc : t.chords[k]? = some c) {n : Note}
    (hn : n ∈ c.notes) {d : Command ℝ}
    (hd : d ∈ note t.instrument tempo (t.startOf tempo base k) tail n) :
    d.stop = base + tail + (t.ticksBefore k + n.duration.ticks : Nat) * Beat.tickLength tempo := by
  have hle := ticks_take_add_le hmeasured hc hn
  have hbefore : (Beat.ofTicks (t.ticksBefore k)).ticks = t.ticksBefore k := by
    change t.ticksBefore k + _ ≤ t.ticks at hle
    exact Nat.min_eq_left (by omega)
  rw [stop_of_mem_note htail (hpitched c (List.mem_of_getElem? hc) n hn) hd, Track.startOf,
    Beat.seconds_eq_mul, hbefore]
  push_cast
  ring

theorem isGreatest_track (hne : ∃ c ∈ t.chords, c.notes ≠ []) :
    IsGreatest (stops (track t tempo base tail))
      (base + tail + t.ticks * Beat.tickLength tempo) := by
  constructor
  · obtain ⟨k, c, hc, n, hn, hsum⟩ := exists_ticks_take_add_eq hmeasured hne
    obtain ⟨d, hd⟩ := exists_mem_note t.instrument tempo (t.startOf tempo base k) tail
      (hpitched c (List.mem_of_getElem? hc) n hn)
    refine ⟨d, mem_track.mpr ⟨k, c, hc, n, hn, hd⟩, ?_⟩
    rw [stop_of_mem_track htail hmeasured hpitched hticks hc hn hd]
    change t.ticksBefore k + _ = t.ticks at hsum
    rw [hsum]
  · rintro x ⟨d, hd, rfl⟩
    obtain ⟨k, c, hc, n, hn, hd⟩ := mem_track.mp hd
    rw [stop_of_mem_track htail hmeasured hpitched hticks hc hn hd]
    have hle : t.ticksBefore k + n.duration.ticks ≤ t.ticks := ticks_take_add_le hmeasured hc hn
    have hcast : ((t.ticksBefore k + n.duration.ticks : Nat) : ℝ) ≤ t.ticks := by exact_mod_cast hle
    have := mul_le_mul_of_nonneg_right hcast (Beat.tickLength_nonneg tempo)
    linarith

end

end Plan

/-! ## Stops of a score -/

theorem Track.seconds_duration {t : Track} (h : t.ticks ≤ Number.max64) (tempo : Nat) :
    (t.duration.seconds tempo : ℝ) = t.ticks * Beat.tickLength tempo := by
  have hticks : t.duration.ticks = t.ticks := by
    rw [t.duration_eq, Beat.sum_eq_ofTicks, List.map_map]
    exact Nat.min_eq_left h
  rw [Beat.seconds_eq_mul, hticks]

namespace Score

/-- The length is that of some track, or zero, and no track is longer. -/
theorem max?_seconds (s : Score) :
    ((0 : ℝ) :: s.tracks.map fun t => t.duration.seconds s.tempo).max? = some s.seconds := by
  have hzero : (0.0 : ℝ) = 0 := by norm_num
  rw [List.max?_cons', seconds, hzero]
  rfl

section
variable {s : Score} (hconsistent : s.Consistent)
  (hticks : ∀ t ∈ s.tracks, t.ticks ≤ Number.max64)
include hconsistent hticks

theorem seconds_eq_zero {t : Track} (ht : t ∈ s.tracks) (he : ∀ c ∈ t.chords, c.notes = []) :
    (t.duration.seconds s.tempo : ℝ) = 0 := by
  have hzero : t.ticks = 0 := sum_ticks_eq_zero (hconsistent.measured t ht) he
  rw [Track.seconds_duration (hticks t ht), hzero]
  simp

/-- Some track with notes is as long as the score. -/
theorem exists_longest (hne : ∃ t ∈ s.tracks, ∃ c ∈ t.chords, c.notes ≠ []) :
    ∃ t ∈ s.tracks, (∃ c ∈ t.chords, c.notes ≠ []) ∧
      (t.duration.seconds s.tempo : ℝ) = s.seconds := by
  obtain ⟨hmem, hle⟩ := List.max?_eq_some_iff.mp s.max?_seconds
  by_cases hz : (s.seconds : ℝ) = 0
  · obtain ⟨t, ht, hnotes⟩ := hne
    refine ⟨t, ht, hnotes, le_antisymm ?_ ?_⟩
    · exact hle _ (List.mem_cons_of_mem _ (List.mem_map_of_mem ht))
    · rw [hz, Beat.seconds_eq_mul]
      exact mul_nonneg (Nat.cast_nonneg _) (Beat.tickLength_nonneg _)
  · obtain ⟨t, ht, hseconds⟩ := List.mem_map.mp ((List.mem_cons.mp hmem).resolve_left hz)
    refine ⟨t, ht, ?_, hseconds⟩
    by_contra hnotes
    apply hz
    rw [← hseconds]
    apply seconds_eq_zero hconsistent hticks ht
    simpa using hnotes

variable (hpitched : ∀ t ∈ s.tracks, t.Pitched)
include hpitched

theorem isGreatest_stops {base tail : ℝ} (htail : 0 ≤ tail)
    (hne : ∃ t ∈ s.tracks, ∃ c ∈ t.chords, c.notes ≠ []) :
    IsGreatest (Plan.stops (Plan.score s base tail)) (base + tail + s.seconds) := by
  have hgreatest : ∀ t ∈ s.tracks, (∃ c ∈ t.chords, c.notes ≠ []) →
      IsGreatest (Plan.stops (Plan.track t s.tempo base tail))
        (base + tail + t.duration.seconds s.tempo) := by
    intro t ht hnotes
    rw [Track.seconds_duration (hticks t ht)]
    exact Plan.isGreatest_track htail (hconsistent.measured t ht) (hpitched t ht) (hticks t ht) hnotes
  constructor
  · obtain ⟨t, ht, hnotes, hseconds⟩ := exists_longest hconsistent hticks hne
    obtain ⟨⟨d, hd, hstop⟩, -⟩ := hgreatest t ht hnotes
    rw [← hseconds]
    exact ⟨d, List.mem_flatMap.mpr ⟨t, ht, hd⟩, hstop⟩
  · rintro x ⟨d, hd, rfl⟩
    obtain ⟨t, ht, hd⟩ := List.mem_flatMap.mp hd
    obtain ⟨k, c, hc, n, hn, -⟩ := Plan.mem_track.mp hd
    have hnotes : ∃ c ∈ t.chords, c.notes ≠ [] :=
      ⟨c, List.mem_of_getElem? hc, List.ne_nil_of_mem hn⟩
    have hstop := (hgreatest t ht hnotes).2 ⟨d, hd, rfl⟩
    have hle := (List.max?_eq_some_iff.mp s.max?_seconds).2 _
      (List.mem_cons_of_mem _ (List.mem_map_of_mem ht))
    linarith

end

theorem noteCount_eq_zero_iff {s : Score} :
    s.noteCount = 0 ↔ ∀ t ∈ s.tracks, ∀ c ∈ t.chords, c.notes = [] := by
  rw [noteCount, List.length_eq_zero_iff, notes]
  simp only [List.flatMap_eq_nil_iff, List.mem_flatMap]
  constructor
  · intro h t ht c hc
    exact h c ⟨t, ht, hc⟩
  · rintro h c ⟨t, ht, hc⟩
    exact h t ht c hc

theorem pitched_compile {source : String} {t : Track} (ht : t ∈ (Notation.compile source).tracks)
    (h : t.isDrums = false) : t.Pitched := by
  intro c hc n hn
  have hfits := (((Notation.compiled_compile source).tracks t ht).of_mem_chords hc).notes n hn |>.fits
  rw [h] at hfits
  obtain ⟨p, octave, hp, -⟩ := hfits.isMelodic
  exact ⟨p, octave, hp⟩

/-- In exact arithmetic, the length of a compiled score without drums is when the last tone of its
plan stops, and base and tail come on top; without notes both are nothing. -/
theorem seconds_latest_stop (source : String)
    (hmelodic : ∀ t ∈ (Notation.compile source).tracks, t.isDrums = false)
    (hticks : ∀ t ∈ (Notation.compile source).tracks,
      (t.chords.map (·.duration.ticks)).sum < 2 ^ 64) :
    let s := Notation.compile source
    (∀ (b : Beat) (tempo : Nat),
      (b.seconds tempo : ℝ) = ((b.ticks * 60 / (960 * tempo) : ℚ) : ℝ)) ∧
    (s.noteCount = 0 → (s.seconds : ℝ) = 0 ∧ ∀ base tail : ℝ, Plan.score s base tail = []) ∧
    (s.noteCount ≠ 0 → IsGreatest (Plan.stops (Plan.score s 0 0)) s.seconds ∧
      ∀ base tail : ℝ, 0 ≤ tail →
        IsGreatest (Plan.stops (Plan.score s base tail)) (base + tail + s.seconds)) := by
  intro s
  have hconsistent := (consistent_compile source).1
  have hpitched : ∀ t ∈ s.tracks, t.Pitched := fun t ht => pitched_compile ht (hmelodic t ht)
  have hle : ∀ t ∈ s.tracks, t.ticks ≤ Number.max64 := fun t ht => Nat.le_of_lt_succ (hticks t ht)
  refine ⟨Beat.seconds_eq_cast, fun hnone => ⟨?_, fun base tail => ?_⟩, fun hsome => ?_⟩
  · have hsilent := noteCount_eq_zero_iff.mp hnone
    obtain ⟨hmem, -⟩ := List.max?_eq_some_iff.mp s.max?_seconds
    rcases List.mem_cons.mp hmem with hz | hmem
    · exact hz
    · obtain ⟨t, ht, hseconds⟩ := List.mem_map.mp hmem
      rw [← hseconds]
      exact seconds_eq_zero hconsistent hle ht (hsilent t ht)
  · have hsilent := noteCount_eq_zero_iff.mp hnone
    rw [List.eq_nil_iff_forall_not_mem]
    intro d hd
    obtain ⟨t, ht, hd⟩ := List.mem_flatMap.mp hd
    obtain ⟨k, c, hc, n, hn, -⟩ := Plan.mem_track.mp hd
    rw [hsilent t ht c (List.mem_of_getElem? hc)] at hn
    cases hn
  · have hne : ∃ t ∈ s.tracks, ∃ c ∈ t.chords, c.notes ≠ [] := by
      by_contra hno
      apply hsome
      rw [noteCount_eq_zero_iff]
      simpa using hno
    refine ⟨?_, fun base tail htail => isGreatest_stops hconsistent hle hpitched htail hne⟩
    have h : IsGreatest (Plan.stops (Plan.score s (0 : ℝ) 0)) (0 + 0 + s.seconds) :=
      isGreatest_stops hconsistent hle hpitched le_rfl hne
    rwa [add_zero, zero_add] at h

/-- Two tracks, the longer one with a short note after a long one, and a chord without notes last. -/
theorem seconds_latest_stop_duet :
    let s := Notation.compile "tempo:90;flute:C4.1+E4.2,G4.0.5|x;bass:C2.1;"
    (∀ t ∈ s.tracks, t.isDrums = false) ∧
    (∀ t ∈ s.tracks, (t.chords.map (·.duration.ticks)).sum < 2 ^ 64) ∧ s.noteCount = 4 ∧
    ∀ base tail : ℝ, 0 ≤ tail →
      IsGreatest (Plan.stops (Plan.score s base tail)) (base + tail + s.seconds) := by
  intro s
  have hmelodic : ∀ t ∈ s.tracks, t.isDrums = false := by decide +kernel
  have hticks : ∀ t ∈ s.tracks, (t.chords.map (·.duration.ticks)).sum < 2 ^ 64 := by decide +kernel
  have hcount : s.noteCount = 4 := by decide +kernel
  have hsome : s.noteCount ≠ 0 := by rw [hcount]; decide
  exact ⟨hmelodic, hticks, hcount, ((seconds_latest_stop _ hmelodic hticks).2.2 hsome).2⟩

end Score

end ScoreSynth
