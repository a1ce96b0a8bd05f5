import ScoreSynth.Proofs.Beat.Sums
import ScoreSynth.Proofs.Number.Rising
import ScoreSynth.Proofs.Plan.Placed

/-!
# Where each tone starts

A chord starts at the base plus the ticks of all chords before it on its track. From there its notes
get one tone for each voice in unison or for each layer of a drum, and a track nothing else.
-/

namespace ScoreSynth

open Number

/-! ## Chords -/

/-- Ticks of the chords before the one numbered `k`, whatever patterns they stand in. -/
def Track.ticksBefore (t : Track) (k : Nat) : Nat :=
  ((t.chords.take k).map (·.duration.ticks)).sum

/-- A tick count stops at the greatest. -/
def Track.startOf {α : Type} [Scalar α] (t : Track) (tempo : Nat) (base : α) (k : Nat) : α :=
  base + (Beat.ofTicks (t.ticksBefore k)).seconds tempo

theorem Beat.sum_eq_ofTicks (bs : List Beat) : bs.sum = ofTicks ((bs.map (·.ticks)).sum) := by
  induction bs with
  | nil => rfl
  | cons b bs ih =>
    apply ext_ticks
    have := b.ticks_le
    rw [List.sum_cons, ih, ticks_add, List.map_cons, List.sum_cons]
    simp only [ofTicks]
    omega

namespace Plan

variable {α : Type} [Scalar α]

/-- The cursor stands at the sum of all chords before. -/
theorem chords_eq_flatMap (instrument : String) (tempo : Nat) (base tail : α) (cs : List Chord)
    (cursor : Beat) :
    chords instrument tempo base tail cursor cs = cs.zipIdx.flatMap fun (c, k) =>
      chord instrument tempo
        (base + (cursor + ((cs.take k).map (·.duration)).sum).seconds tempo) tail c := by
  induction cs generalizing cursor with
  | nil => rfl
  | cons c cs ih =>
    rw [chords, ih, List.zipIdx_cons, List.flatMap_cons, List.zipIdx_succ, List.flatMap_map]
    simp only [List.take_zero, List.map_nil, List.sum_nil, List.take_succ_cons, List.map_cons,
      List.sum_cons, Beat.add_assoc]
    congr 1
    exact congrArg (fun b : Beat => chord instrument tempo (base + b.seconds tempo) tail c)
      (Beat.add_zero cursor).symm

theorem track_eq_flatMap (t : Track) (tempo : Nat) (base tail : α) :
    track t tempo base tail = t.chords.zipIdx.flatMap fun (c, k) =>
      chord t.instrument tempo (t.startOf tempo base k) tail c := by
  rw [track, chords_eq_flatMap]
  apply List.flatMap_congr
  rintro ⟨c, k⟩ _
  have hsum : Beat.zero + ((t.chords.take k).map (·.duration)).sum =
      Beat.ofTicks (t.ticksBefore k) := by
    rw [Beat.zero_add, Beat.sum_eq_ofTicks, List.map_map]
    rfl
  simp only [hsum]
  rfl

end Plan

/-! ## Notes -/

def Sound.Profile.voiceCount {α : Type} (p : Sound.Profile α) : Nat :=
  match p.unison with
  | some u => max u.voices 1
  | none => 1

def Note.toneCount (instrument : String) (n : Note) : Nat :=
  match n.pitch with
  | .melodic _ _ => (Sound.Catalog.named instrument : Sound.Profile Float).voiceCount
  | .drum code => (Sound.DrumKit.named code : Sound.Drum Float).layers.length

/-- One command for each voice of a melodic note, and one for each layer of a drum. -/
def Note.PlacedAt (instrument : String) (tempo : Nat) (start tail : Float) (n : Note)
    (cs : List (Command Float)) : Prop :=
  match n.pitch with
  | .melodic p octave =>
    cs.map (·.tone) = (Sound.Catalog.named instrument).tones (p.frequency octave)
        (n.duration.seconds tempo) n.velocity ∧
      ∀ c ∈ cs, c.start = start ∧
        c.stop = largerFloat (start + n.duration.seconds tempo + tail) start
  | .drum code =>
    List.Forall₂ (fun l c => c.start = start + l.delay ∧ c.stop = c.start + l.length ∧
      c.tone = l.tone n.velocity) (Sound.DrumKit.named code).layers cs

theorem Sound.Profile.length_tones {α : Type} [Scalar α] (p : Sound.Profile α)
    (frequency length : α) (velocity : Float32) :
    (p.tones frequency length velocity).length = p.voiceCount := by
  rw [tones, List.length_map, detunes, voiceCount]
  cases p.unison with
  | none => rfl
  | some u =>
    by_cases h : 1 < u.voices
    · simp only [h, if_true, List.length_map, List.length_range]
      omega
    · simp only [h, if_false, List.length_singleton]
      omega

namespace Plan

/-- The layers of a drum have some length. -/
theorem length_nonNegative {code : String} {l : Sound.DrumLayer Float}
    (hl : l ∈ (Sound.DrumKit.named code).layers) :
    NonNegative l.length ∧ l.length.isInf = false := by
  have hkit : ∀ d ∈ Sound.DrumKit.fallback :: Sound.DrumKit.drums, ∀ l ∈ d.layers,
      NonNegative (l.length : Float) ∧ l.length.isInf = false := by decide +kernel
  exact hkit _ (named_mem code) l hl

theorem placedAt_note (instrument : String) (tempo : Nat) (start tail : Float) (n : Note) :
    n.PlacedAt instrument tempo start tail (note instrument tempo start tail n) := by
  unfold Note.PlacedAt note
  cases n.pitch with
  | melodic p octave =>
    constructor
    · simp only [List.map_map]
      exact List.map_id _
    · intro c hc
      obtain ⟨tone, -, rfl⟩ := List.mem_map.mp hc
      exact ⟨rfl, rfl⟩
  | drum code =>
    simp only [List.forall₂_map_right_iff]
    apply List.forall₂_same.mpr
    intro l hl
    obtain ⟨hlength, hfinite⟩ := length_nonNegative hl
    exact ⟨rfl, larger_add (start + l.delay) hlength hfinite, rfl⟩

theorem length_note (instrument : String) (tempo : Nat) (start tail : Float) (n : Note) :
    (note instrument tempo start tail n).length = n.toneCount instrument := by
  unfold note Note.toneCount
  cases n.pitch with
  | melodic p octave =>
    simp only [List.length_map]
    exact Sound.Profile.length_tones _ _ _ _
  | drum code => simp only [List.length_map]

theorem length_chords (instrument : String) (tempo : Nat) (base tail : Float) (cs : List Chord)
    (cursor : Beat) : (chords instrument tempo base tail cursor cs).length =
      ((cs.flatMap (·.notes)).map (Note.toneCount instrument)).sum := by
  induction cs generalizing cursor with
  | nil => rfl
  | cons c cs ih =>
    rw [chords, List.length_append, ih, List.flatMap_cons, List.map_append, List.sum_append, chord,
      List.length_flatMap]
    simp only [length_note]

/-- Each chord of a track starts at the base plus all ticks before it, each of its notes gets its
tones from there and nothing else is planned; a track is planned as if it were alone. -/
theorem tones_placed (t : Track) (tempo : Nat) (base tail : Float) :
    (track t tempo base tail = t.chords.zipIdx.flatMap fun (c, k) =>
      c.notes.flatMap (note t.instrument tempo (t.startOf tempo base k) tail)) ∧
    (∀ (start : Float) (n : Note),
      n.PlacedAt t.instrument tempo start tail (note t.instrument tempo start tail n) ∧
      (note t.instrument tempo start tail n).length = n.toneCount t.instrument) ∧
    (track t tempo base tail).length =
      ((t.chords.flatMap (·.notes)).map (Note.toneCount t.instrument)).sum ∧
    (∀ s : Score, score s base tail =
      (s.tracks.map fun t => track t s.tempo base tail).flatten) ∧
    ∀ before after, score ⟨tempo, before ++ t :: after⟩ base tail =
      score ⟨tempo, before⟩ base tail ++
        (track t tempo base tail ++ score ⟨tempo, after⟩ base tail) := by
  refine ⟨track_eq_flatMap t tempo base tail, fun start n => ⟨?_, ?_⟩, ?_, ?_, ?_⟩
  · exact placedAt_note t.instrument tempo start tail n
  · exact length_note t.instrument tempo start tail n
  · exact length_chords t.instrument tempo base tail t.chords .zero
  · intro s
    exact List.flatMap_def
  · intro before after
    simp only [score, List.flatMap_append, List.flatMap_cons]

end Plan

end ScoreSynth
