import ScoreSynth.Plan
import ScoreSynth.Proofs.Beat.Sums
import ScoreSynth.Proofs.Notation.Compiled
import ScoreSynth.Proofs.Number.Zeros
import ScoreSynth.Proofs.Prose.Chords
import ScoreSynth.Proofs.Score.Pruned

/-!
# What is heard of a score

A chord without notes makes no sound, and if it has no length either it moves nothing. What is left of
a score without these chords are its voices, and the voices with the tempo settle all that is heard:
neither the grouping into patterns nor tracks without a note can be told from them.
-/

namespace ScoreSynth

def Score.RestsTakeNoTime (s : Score) : Prop :=
  ∀ t ∈ s.tracks, ∀ c ∈ t.chords, c.notes = [] → c.duration = .zero

def Track.voiced (t : Track) : List Chord := t.chords.filter fun c => !c.isEmpty

def Track.part (t : Track) : String × List Chord := (t.instrument, t.voiced)

def Score.voices (s : Score) : List (String × List Chord) :=
  (s.tracks.map Track.part).filter fun v => !v.2.isEmpty

/-! ## Lists with parts left out -/

section
variable {α β γ : Type}

theorem flatMap_filter_of_nil {p : α → Bool} {f : α → List β} {l : List α}
    (h : ∀ x ∈ l, p x = false → f x = []) : (l.filter p).flatMap f = l.flatMap f := by
  induction l with
  | nil => rfl
  | cons x l ih =>
    have ih := ih fun y hy => h y (List.mem_cons_of_mem x hy)
    cases hx : p x with
    | true => rw [List.filter_cons_of_pos hx, List.flatMap_cons, List.flatMap_cons, ih]
    | false =>
      rw [List.filter_cons_of_neg (by simp [hx]), List.flatMap_cons, h x List.mem_cons_self hx,
        List.nil_append, ih]

theorem sum_filter_of_zero {p : α → Bool} {f : α → Beat} {l : List α}
    (h : ∀ x ∈ l, p x = false → f x = .zero) : ((l.filter p).map f).sum = (l.map f).sum := by
  induction l with
  | nil => rfl
  | cons x l ih =>
    have ih := ih fun y hy => h y (List.mem_cons_of_mem x hy)
    cases hx : p x with
    | true =>
      rw [List.filter_cons_of_pos hx, List.map_cons, List.map_cons, List.sum_cons, List.sum_cons, ih]
    | false =>
      rw [List.filter_cons_of_neg (by simp [hx]), List.map_cons, List.sum_cons,
        h x List.mem_cons_self hx, Beat.zero_add, ih]

/-- What a later filter drops anyway can be dropped before. -/
theorem filter_map_filter {p : α → Bool} {q : β → Bool} {f : α → β} (h : ∀ x, q (f x) = true → p x = true)
    (l : List α) : ((l.filter p).map f).filter q = (l.map f).filter q := by
  rw [List.filter_map, List.filter_map, List.filter_filter]
  congr 1
  apply List.filter_congr
  intro x _
  cases hq : q (f x) with
  | true => simp [hq, h x hq]
  | false => simp [hq]

end

/-! ## Tracks and their voices -/

theorem Chord.isEmpty_iff {c : Chord} : c.isEmpty = true ↔ c.notes = [] := by
  unfold Chord.isEmpty
  rw [List.isEmpty_iff]

namespace Track

theorem chords_pruned (t : Track) : t.pruned.chords = t.voiced := by
  have hp : ∀ p : Pattern, p.pruned.chords = p.chords.filter fun c => !c.isEmpty := fun _ => rfl
  unfold pruned chords voiced chords
  rw [flatMap_filter_of_nil (by simp), List.flatMap_map, List.filter_flatMap]
  simp only [hp]

theorem voiced_pruned (t : Track) : t.pruned.voiced = t.voiced := by
  unfold voiced
  rw [chords_pruned]
  unfold voiced
  rw [List.filter_filter]
  simp

theorem part_pruned (t : Track) : t.pruned.part = t.part := by
  unfold part
  rw [voiced_pruned]
  rfl

theorem patterns_pruned_eq_nil {t : Track} : t.pruned.patterns = [] ↔ t.voiced = [] := by
  rw [← chords_pruned]
  constructor
  · intro h
    unfold chords
    rw [h]
    rfl
  · intro h
    rw [List.eq_nil_iff_forall_not_mem]
    intro p hp
    have hc := List.flatMap_eq_nil_iff.mp h p hp
    exact (mem_pruned.mp hp).2 hc

theorem duration_voiced {t : Track} (h : ∀ c ∈ t.chords, c.notes = [] → c.duration = .zero) :
    t.duration = (t.voiced.map (·.duration)).sum := by
  rw [duration_eq]
  unfold voiced
  rw [sum_filter_of_zero]
  intro c hc he
  exact h c hc (Chord.isEmpty_iff.mp (by simpa using he))

theorem duration_pruned {t : Track} (h : ∀ c ∈ t.chords, c.notes = [] → c.duration = .zero) :
    t.pruned.duration = t.duration := by
  rw [duration_voiced h, duration_eq, chords_pruned]

end Track

theorem Score.voices_pruned (s : Score) : s.pruned.voices = s.voices := by
  unfold voices pruned
  rw [filter_map_filter, List.map_map]
  · congr 2
    funext t
    exact t.part_pruned
  · intro t ht
    have hv : t.voiced ≠ [] := by simpa [Track.part] using ht
    have hc : t.chords ≠ [] := fun hnil => hv (by unfold Track.voiced; rw [hnil]; rfl)
    have hp : t.patterns ≠ [] := fun hnil => hc (by unfold Track.chords; rw [hnil]; rfl)
    simpa using hp

/-! ## All that is heard -/

namespace Plan

variable {α : Type} [Scalar α]

/-- The cursor stands still at chords without notes. -/
theorem chords_filter {cs : List Chord} (h : ∀ c ∈ cs, c.notes = [] → c.duration = .zero)
    (instrument : String) (tempo : Nat) (base tail : α) (cursor : Beat) :
    chords instrument tempo base tail cursor (cs.filter fun c => !c.isEmpty) =
      chords instrument tempo base tail cursor cs := by
  induction cs generalizing cursor with
  | nil => rfl
  | cons c cs ih =>
    have ih := ih fun d hd => h d (List.mem_cons_of_mem c hd)
    cases hc : c.isEmpty with
    | false => rw [List.filter_cons_of_pos (by simp [hc]), chords, chords, ih]
    | true =>
      have hnotes := Chord.isEmpty_iff.mp hc
      rw [List.filter_cons_of_neg (by simp [hc]), ih, chords, h c List.mem_cons_self hnotes,
        Beat.add_zero]
      unfold chord
      rw [hnotes]
      rfl

theorem score_eq_voices {s : Score} (h : s.RestsTakeNoTime) (base tail : α) :
    score s base tail =
      s.voices.flatMap fun v => chords v.1 s.tempo base tail .zero v.2 := by
  unfold score Score.voices
  rw [flatMap_filter_of_nil, List.flatMap_map]
  · apply List.flatMap_congr
    intro t ht
    exact (chords_filter (h t ht) t.instrument s.tempo base tail .zero).symm
  · intro v _ hv
    have hnil : v.2 = [] := by simpa using hv
    rw [hnil]
    rfl

end Plan

theorem Beat.zeroOrNaN_seconds_zero (tempo : Nat) : Number.ZeroOrNaN (zero.seconds tempo) := by
  have h0 : (zero.beats * 60.0 : Float) = 0.0 := by decide
  unfold seconds
  split
  · exact .inr ⟨_, rfl⟩
  · rw [h0]
    exact Number.zeroOrNaN_div _

namespace Score

theorem notes_eq_voices (s : Score) : s.notes = s.voices.flatMap fun v => v.2.flatMap (·.notes) := by
  unfold notes voices
  rw [flatMap_filter_of_nil, List.flatMap_map, List.flatMap_assoc]
  · apply List.flatMap_congr
    intro t _
    unfold Track.part Track.voiced
    rw [flatMap_filter_of_nil]
    intro c _ hc
    exact Chord.isEmpty_iff.mp (by simpa using hc)
  · intro v _ hv
    have hnil : v.2 = [] := by simpa using hv
    rw [hnil]
    rfl

theorem seconds_eq_voices {s : Score} (h : s.RestsTakeNoTime) : (s.seconds : Float) =
    (s.voices.map fun v => (v.2.map Chord.duration).sum.seconds s.tempo).foldl largerFloat 0.0 := by
  unfold seconds voices
  rw [Number.foldl_larger_filter _ Number.nonNegative_zero, List.map_map]
  · congr 1
    apply List.map_congr_left
    intro t ht
    rw [Track.duration_voiced (h t ht)]
    rfl
  · intro v _ hv
    have hnil : v.2 = [] := by simpa using hv
    rw [hnil]
    exact Beat.zeroOrNaN_seconds_zero s.tempo

end Score

/-! ## Scores that sound alike -/

/-- What is heard of two scores is the same, on every clock. -/
structure Score.SoundsAlike (s s' : Score) : Prop where
  plan : ∀ (α : Type) [Scalar α] (base tail : α), Plan.score s base tail = Plan.score s' base tail
  noteCount : s.noteCount = s'.noteCount
  seconds : (s.seconds : Float) = s'.seconds

structure Score.Regrouped (s s' : Score) : Prop where
  tempo : s.tempo = s'.tempo
  tracks : s.tracks.map (fun t => (t.instrument, t.chords)) =
    s'.tracks.map fun t => (t.instrument, t.chords)

namespace Score

theorem soundsAlike_of_voices {s s' : Score} (h : s.RestsTakeNoTime) (h' : s'.RestsTakeNoTime)
    (ht : s.tempo = s'.tempo) (hv : s.voices = s'.voices) : SoundsAlike s s' where
  plan := by
    intro α _ base tail
    rw [Plan.score_eq_voices h, Plan.score_eq_voices h', ht, hv]
  noteCount := by
    unfold noteCount
    rw [notes_eq_voices s, notes_eq_voices s', hv]
  seconds := by rw [seconds_eq_voices h, seconds_eq_voices h', ht, hv]

theorem noteCount_pruned (s : Score) : s.pruned.noteCount = s.noteCount := by
  unfold noteCount
  rw [notes_eq_voices s.pruned, voices_pruned, ← notes_eq_voices]

theorem sum_durations_pruned {s : Score} (h : s.RestsTakeNoTime) :
    Beat.sum (s.pruned.tracks.map (·.duration)) = Beat.sum (s.tracks.map (·.duration)) := by
  rw [Beat.sum_eq, Beat.sum_eq]
  unfold pruned
  rw [sum_filter_of_zero, List.map_map]
  · congr 1
    apply List.map_congr_left
    intro t ht
    exact Track.duration_pruned (h t ht)
  · intro t _ ht
    have hnil : t.patterns = [] := by simpa using ht
    rw [Track.duration, hnil]
    rfl

theorem restsTakeNoTime_pruned (s : Score) : s.pruned.RestsTakeNoTime := by
  intro t ht c hc he
  obtain ⟨⟨u, -, rfl⟩, -⟩ := mem_pruned.mp ht
  rw [Track.chords_pruned] at hc
  have hne : c.isEmpty = false := by simpa using (List.mem_filter.mp hc).2
  rw [Chord.isEmpty_iff.mpr he] at hne
  cases hne

namespace Regrouped

variable {s s' : Score}

theorem chords_mem (h : Regrouped s s') {t : Track} (ht : t ∈ s'.tracks) :
    ∃ u ∈ s.tracks, u.chords = t.chords := by
  have hm : (t.instrument, t.chords) ∈ s.tracks.map fun t => (t.instrument, t.chords) := by
    rw [h.tracks]
    exact List.mem_map_of_mem ht
  obtain ⟨u, hu, he⟩ := List.mem_map.mp hm
  exact ⟨u, hu, (Prod.mk.inj he).2⟩

theorem restsTakeNoTime (h : Regrouped s s') (hs : s.RestsTakeNoTime) : s'.RestsTakeNoTime := by
  intro t ht c hc
  obtain ⟨u, hu, he⟩ := h.chords_mem ht
  rw [← he] at hc
  exact hs u hu c hc

theorem map_eq {β : Type} (h : Regrouped s s') (f : String × List Chord → β) :
    s.tracks.map (fun t => f (t.instrument, t.chords)) =
      s'.tracks.map fun t => f (t.instrument, t.chords) := by
  have hf := congrArg (List.map f) h.tracks
  rw [List.map_map, List.map_map] at hf
  exact hf

theorem voices_eq (h : Regrouped s s') : s.voices = s'.voices := by
  have hp := h.map_eq fun v => (v.1, v.2.filter fun c => !c.isEmpty)
  unfold voices
  exact congrArg (List.filter fun v => !v.2.isEmpty) hp

theorem durations_eq (h : Regrouped s s') :
    s.tracks.map (·.duration) = s'.tracks.map (·.duration) := by
  simp only [Track.duration_eq]
  exact h.map_eq fun v => (v.2.map (·.duration)).sum

end Regrouped

theorem restsTakeNoTime_of_ofNotes {s : Score}
    (h : ∀ t ∈ s.tracks, ∀ c ∈ t.chords, c = .ofNotes c.notes) : s.RestsTakeNoTime := by
  intro t ht c hc he
  rw [h t ht c hc, he]
  rfl

theorem restsTakeNoTime_compile (source : String) :
    (Notation.compile source).RestsTakeNoTime := by
  apply restsTakeNoTime_of_ofNotes
  intro t ht c hc
  obtain ⟨p, hp, hcp⟩ := List.mem_flatMap.mp hc
  exact (((Notation.compiled_compile source).tracks t ht).chords p hp c hcp).eq_ofNotes

theorem restsTakeNoTime_prose (text : String) : (Prose.score text).RestsTakeNoTime := by
  apply restsTakeNoTime_of_ofNotes
  intro t ht c hc
  rw [Prose.score_eq, List.mem_singleton] at ht
  subst ht
  rw [Prose.chords_track] at hc
  obtain ⟨x, -, rfl⟩ := List.mem_map.mp hc
  exact Prose.chord_eq_ofNotes x

/--
Chords without notes, patterns without chords and tracks without patterns are unheard, and so is how
the chords of a track are grouped, as long as the chords without notes have no length. That is so in
every score that a text compiles to or is converted to.
-/
theorem rests_and_groups_unheard :
    (∀ source, (Notation.compile source).RestsTakeNoTime) ∧
    (∀ text, (Prose.score text).RestsTakeNoTime) ∧
    ∀ s : Score, s.RestsTakeNoTime →
      s.SoundsAlike s.pruned ∧
      (s.pruned.tracks.map fun t => (t.instrument, t.duration)) =
        ((s.tracks.filter fun t => !t.pruned.patterns.isEmpty).map
          fun t => (t.instrument, t.duration)) ∧
      ∀ s', Regrouped s s' →
        s.SoundsAlike s' ∧ s.tracks.map (·.duration) = s'.tracks.map (·.duration) := by
  refine ⟨restsTakeNoTime_compile, restsTakeNoTime_prose, fun s h => ⟨?_, ?_, fun s' hr => ?_⟩⟩
  · exact soundsAlike_of_voices h s.restsTakeNoTime_pruned rfl s.voices_pruned.symm
  · show ((s.tracks.map Track.pruned).filter _).map _ = _
    rw [List.filter_map, List.map_map]
    apply List.map_congr_left
    intro t ht
    exact Prod.ext rfl (Track.duration_pruned (h t (List.mem_filter.mp ht).1))
  · exact ⟨soundsAlike_of_voices h (hr.restsTakeNoTime h) hr.tempo hr.voices_eq, hr.durations_eq⟩

end Score

end ScoreSynth
