import ScoreSynth.Score

/-!
# Pruned scores

A score without the parts that have nothing in them: first the chords without notes go, then the
patterns without chords, then the tracks without patterns.
-/

namespace ScoreSynth

def Pattern.pruned (p : Pattern) : Pattern := ⟨p.chords.filter fun c => !c.isEmpty⟩

def Track.pruned (t : Track) : Track :=
  { t with patterns := (t.patterns.map Pattern.pruned).filter fun p => !p.chords.isEmpty }

def Score.pruned (s : Score) : Score :=
  { s with tracks := (s.tracks.map Track.pruned).filter fun t => !t.patterns.isEmpty }

theorem Pattern.mem_pruned {p : Pattern} {c : Chord} :
    c ∈ p.pruned.chords ↔ c ∈ p.chords ∧ c.notes ≠ [] := by
  unfold Pattern.pruned Chord.isEmpty
  rw [List.mem_filter]
  simp

theorem Track.mem_pruned {t : Track} {p : Pattern} :
    p ∈ t.pruned.patterns ↔ (∃ q ∈ t.patterns, q.pruned = p) ∧ p.chords ≠ [] := by
  unfold Track.pruned
  rw [List.mem_filter, List.mem_map]
  simp

theorem Score.mem_pruned {s : Score} {t : Track} :
    t ∈ s.pruned.tracks ↔ (∃ u ∈ s.tracks, u.pruned = t) ∧ t.patterns ≠ [] := by
  unfold Score.pruned
  rw [List.mem_filter, List.mem_map]
  simp

theorem Pattern.pruned_pruned (p : Pattern) : p.pruned.pruned = p.pruned := by
  unfold pruned
  simp

theorem Track.pruned_pruned (t : Track) : t.pruned.pruned = t.pruned := by
  have hmap : t.pruned.patterns.map Pattern.pruned = t.pruned.patterns := by
    refine (List.map_congr_left fun p hp => ?_).trans (List.map_id _)
    obtain ⟨⟨q, -, rfl⟩, -⟩ := mem_pruned.mp hp
    exact q.pruned_pruned
  have hfilter : t.pruned.patterns.filter (fun p => !p.chords.isEmpty) = t.pruned.patterns := by
    rw [List.filter_eq_self]
    exact fun p hp => by simpa using (mem_pruned.mp hp).2
  rw [pruned, hmap, hfilter]

theorem Score.pruned_pruned (s : Score) : s.pruned.pruned = s.pruned := by
  have hmap : s.pruned.tracks.map Track.pruned = s.pruned.tracks := by
    refine (List.map_congr_left fun t ht => ?_).trans (List.map_id _)
    obtain ⟨⟨u, -, rfl⟩, -⟩ := mem_pruned.mp ht
    exact u.pruned_pruned
  have hfilter : s.pruned.tracks.filter (fun t => !t.patterns.isEmpty) = s.pruned.tracks := by
    rw [List.filter_eq_self]
    exact fun t ht => by simpa using (mem_pruned.mp ht).2
  rw [pruned, hmap, hfilter]

theorem Track.mem_chords_of_mem_pruned {t : Track} {p : Pattern} {c : Chord}
    (hp : p ∈ t.pruned.patterns) (hc : c ∈ p.chords) : c ∈ t.chords ∧ c.notes ≠ [] := by
  obtain ⟨⟨q, hq, rfl⟩, -⟩ := Track.mem_pruned.mp hp
  obtain ⟨hcq, hne⟩ := Pattern.mem_pruned.mp hc
  exact ⟨List.mem_flatMap.mpr ⟨q, hq, hcq⟩, hne⟩

end ScoreSynth
