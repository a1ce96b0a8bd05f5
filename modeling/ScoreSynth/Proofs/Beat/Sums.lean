import Mathlib.Algebra.BigOperators.Group.List.Basic
import ScoreSynth.Score

/-!
# Sums of beats

Addition that stops at the greatest tick count is still associative, so a sum of beats does not depend
on how they are grouped.
-/

namespace ScoreSynth

namespace Beat

theorem add_zero (a : Beat) : a + zero = a := by
  have := a.ticks_le
  apply ext_ticks
  rw [ticks_add]
  simp only [zero]
  omega

instance : Zero Beat := ⟨zero⟩

instance : AddMonoid Beat where
  add_assoc := add_assoc
  zero_add := zero_add
  add_zero := add_zero
  nsmul := nsmulRec

theorem sum_eq (bs : List Beat) : sum bs = bs.sum := List.sum_eq_foldl.symm

end Beat

/-- Boundaries of patterns do not count. -/
theorem Track.duration_eq (t : Track) : t.duration = (t.chords.map (·.duration)).sum := by
  have hp : ∀ p : Pattern, p.duration = (p.chords.map (·.duration)).sum := fun p => Beat.sum_eq _
  unfold Track.duration Track.chords
  rw [Beat.sum_eq, List.map_flatMap, List.flatMap_def, List.sum_flatten, List.map_map]
  congr 2
  funext p
  exact hp p

end ScoreSynth
