import ScoreSynth.Plan
import ScoreSynth.Proofs.Beat.Seconds

/-!
# Where planned tones lie

From a base that is not below zero on, every planned tone has a start and a stop on the clock, the
start not before the base and the stop not before the start. The two zeros give the same plan.
-/

open Float.Model

namespace ScoreSynth

open Number

/-! ## Tones -/

structure Command.Follows (base : Float) (c : Command Float) : Prop where
  start : NonNegative c.start
  stop : NonNegative c.stop
  base_le : base ≤ c.start
  start_le : c.start ≤ c.stop

namespace Plan

section
variable {base start : Float}

theorem follows_placed (hs : NonNegative start) (h : base ≤ start) (stop : Float)
    (tone : Sound.Tone Float) : (Command.placed start stop tone).Follows base := by
  obtain ⟨hstop, hle⟩ := hs.larger_right stop
  exact ⟨hs, hstop, h, hle⟩

theorem named_mem (code : String) :
    Sound.DrumKit.named code ∈
      (Sound.DrumKit.fallback :: Sound.DrumKit.drums : List (Sound.Drum Float)) := by
  cases hd : Sound.DrumKit.drums.find? fun d : Sound.Drum Float =>
      d.answersTo ((Text.trim code.toList).map Char.toLower) with
  | none =>
    rw [Sound.DrumKit.named, hd]
    exact List.mem_cons_self
  | some d =>
    rw [Sound.DrumKit.named, hd]
    exact List.mem_cons_of_mem _ (List.mem_of_find?_eq_some hd)

/-- No layer of a drum comes before the hit. -/
theorem delay_nonNegative {code : String} {l : Sound.DrumLayer Float}
    (hl : l ∈ (Sound.DrumKit.named code).layers) : NonNegative l.delay := by
  have hkit : ∀ d ∈ Sound.DrumKit.fallback :: Sound.DrumKit.drums,
      ∀ l ∈ d.layers, NonNegative (l.delay : Float) := by decide +kernel
  exact hkit _ (named_mem code) l hl

variable (hb : NonNegative base)
include hb

theorem follows_note (hs : NonNegative start) (h : base ≤ start) (instrument : String)
    (tempo : Nat) (tail : Float) (n : Note) {c : Command Float}
    (hc : c ∈ note instrument tempo start tail n) : c.Follows base := by
  unfold note at hc
  split at hc
  · obtain ⟨tone, -, rfl⟩ := List.mem_map.mp hc
    exact follows_placed hs h _ tone
  · obtain ⟨l, hl, rfl⟩ := List.mem_map.mp hc
    have hdelay := delay_nonNegative hl
    have hat := hs.add hdelay
    exact follows_placed hat (hb.le_trans hs hat h (hs.le_add hdelay)) _ _

theorem follows_chords (instrument : String) (tempo : Nat) (tail : Float) (cs : List Chord)
    (cursor : Beat) {c : Command Float} (hc : c ∈ chords instrument tempo base tail cursor cs) :
    c.Follows base := by
  induction cs generalizing cursor with
  | nil => cases hc
  | cons chord cs ih =>
    rcases List.mem_append.mp hc with hc | hc
    · obtain ⟨n, -, hc⟩ := List.mem_flatMap.mp hc
      have hlater := cursor.nonNegative_seconds tempo
      exact follows_note hb (hb.add hlater) (hb.le_add hlater) instrument tempo tail n hc
    · exact ih _ hc

theorem follows_score (s : Score) (tail : Float) {c : Command Float} (hc : c ∈ score s base tail) :
    c.Follows base := by
  obtain ⟨t, -, hc⟩ := List.mem_flatMap.mp hc
  exact follows_chords hb t.instrument s.tempo tail t.chords .zero hc

end

/-! ## Either zero -/

section
variable {base base' : Float} {tempo : Nat}
  (h : ∀ b : Beat, base + b.seconds tempo = base' + b.seconds tempo)
include h

theorem chords_congr (instrument : String) (tail : Float) (cs : List Chord) (cursor : Beat) :
    chords instrument tempo base tail cursor cs = chords instrument tempo base' tail cursor cs := by
  induction cs generalizing cursor with
  | nil => rfl
  | cons chord cs ih => rw [chords, chords, h cursor, ih]

end

/-- The clock of a fresh output adds nothing to a plan, also where the base is the other zero. -/
theorem score_zero_add (s : Score) (base tail : Float) :
    score s (0.0 + base) tail = score s base tail := by
  refine List.flatMap_congr fun t _ => chords_congr (fun b => ?_) t.instrument tail t.chords .zero
  exact zero_add_add (b.unsigned_seconds s.tempo)

end Plan

end ScoreSynth
