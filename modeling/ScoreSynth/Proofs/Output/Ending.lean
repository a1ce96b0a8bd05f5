import ScoreSynth.Output.Offline
import ScoreSynth.Proofs.Output.Frames
import ScoreSynth.Proofs.Plan.Placed
import ScoreSynth.Session

/-!
# When a mixer ends

Counting in frames keeps the order of times. So a mixer that is given tones ends with the last frame
of the latest of them, or when it would have ended without them if that is later.
-/

namespace ScoreSynth.Output

open Number

/-! ## Frames -/

section
variable {x y : Float} {rate : Nat}

theorem frameAt_eq (hx : NonNegative x) (rate : Nat) : frameAt x rate =
    counted (rounded (magnitude x * magnitude (Float.ofNat rate))) := by
  have hlarger : largerFloat x 0.0 = x := hx.larger_zeroOrNaN (.inr ⟨.positive, rfl⟩)
  obtain ⟨hbelow, hmul⟩ := mul_spec hx (ofNat_spec rate).1
  rw [frameAt, hlarger, count_eq_counted hbelow, hmul]

theorem frameAt_mono (hx : NonNegative x) (hy : NonNegative y) (h : x ≤ y) :
    frameAt x rate ≤ frameAt y rate := by
  rw [frameAt_eq hx, frameAt_eq hy]
  exact counted_mono (rounded_mono (mul_le_mul_left ((le_iff_magnitude hx hy).mp h) _))

theorem frameAt_congr (hx : NonNegative x) (hy : NonNegative y) (h : (x == y) = true) :
    frameAt x rate = frameAt y rate := by
  rw [frameAt_eq hx, frameAt_eq hy, (beq_iff_magnitude hx hy).mp h]

end

/-! ## The latest stop -/

theorem foldl_larger_spec {times : List Float} (ht : ∀ x ∈ times, NonNegative x) {time : Float}
    (h : NonNegative time) :
    NonNegative (times.foldl largerFloat time) ∧ time ≤ times.foldl largerFloat time ∧
      (∀ x ∈ times, x ≤ times.foldl largerFloat time) ∧
      times.foldl largerFloat time ∈ time :: times := by
  induction times generalizing time with
  | nil => exact ⟨h, h.le_refl, nofun, List.mem_cons_self⟩
  | cons x times ih =>
    obtain ⟨hx, ht⟩ := List.forall_mem_cons.mp ht
    obtain ⟨hlarger, hle⟩ := hx.larger_right time
    obtain ⟨hlast, hge, hall, hfrom⟩ := ih ht hlarger
    refine ⟨hlast, h.le_trans hlarger hlast (h.le_larger hx) hge, ?_, ?_⟩
    · intro z hz
      rcases List.mem_cons.mp hz with rfl | hz
      · exact hx.le_trans hlarger hlast hle hge
      · exact hall z hz
    · rw [List.foldl_cons]
      rcases List.mem_cons.mp hfrom with hfrom | hfrom
      · rw [hfrom]
        unfold largerFloat
        split_ifs <;> simp
      · exact List.mem_cons_of_mem _ (List.mem_cons_of_mem x hfrom)

structure IsLatestStop (cs : List (Command Float)) (time : Float) : Prop where
  nonNegative : NonNegative time
  le : ∀ c ∈ cs, c.stop ≤ time
  reached : ∃ c ∈ cs, (c.stop == time) = true

/-- The latest stop of tones that follow the base is a stop, if there are any. -/
theorem isLatestStop_latestStop {cs : List (Command Float)} (hne : cs ≠ []) {base : Float}
    (hb : NonNegative base) (h : ∀ c ∈ cs, c.Follows base) :
    IsLatestStop cs (Session.latestStop base cs) := by
  have ht : ∀ x ∈ cs.map (·.stop), NonNegative x := by
    intro x hx
    obtain ⟨c, hc, rfl⟩ := List.mem_map.mp hx
    exact (h c hc).stop
  obtain ⟨hlast, hge, hall, hfrom⟩ := foldl_larger_spec ht hb
  change NonNegative (Session.latestStop base cs) at hlast
  change base ≤ Session.latestStop base cs at hge
  have hle : ∀ c ∈ cs, c.stop ≤ Session.latestStop base cs :=
    fun c hc => hall _ (List.mem_map_of_mem hc)
  refine ⟨hlast, hle, ?_⟩
  rcases List.mem_cons.mp hfrom with hfrom | hfrom
  · -- no tone stops after the base, so the first one stops at it
    change Session.latestStop base cs = base at hfrom
    obtain ⟨c, hc⟩ := List.exists_mem_of_ne_nil cs hne
    have hc' := h c hc
    have hstop := hb.le_trans hc'.start hc'.stop hc'.base_le hc'.start_le
    refine ⟨c, hc, (beq_iff_magnitude hc'.stop hlast).mpr (le_antisymm ?_ ?_)⟩
    · exact (le_iff_magnitude hc'.stop hlast).mp (hle c hc)
    · rw [hfrom]
      exact (le_iff_magnitude hb hc'.stop).mp hstop
  · obtain ⟨c, hc, hstop⟩ := List.mem_map.mp hfrom
    refine ⟨c, hc, (beq_iff_magnitude (h c hc).stop hlast).mpr ?_⟩
    exact congrArg magnitude hstop

/-! ## The end of a mixer -/

theorem foldl_max_le_iff {ns : List Nat} {a k : Nat} :
    ns.foldl max a ≤ k ↔ a ≤ k ∧ ∀ n ∈ ns, n ≤ k := by
  induction ns generalizing a with
  | nil => simp
  | cons n ns ih => simp [ih, and_assoc]

theorem mem_stops_schedule {m : Mixer} (hrate : 0 < m.rate) {cs : List (Command Float)} {n : Nat} :
    n ∈ (m.schedule cs).stops ↔ n ∈ m.stops ∨ ∃ c ∈ cs, (Entry.ofCommand m.rate c).stop = n := by
  have hrate : max m.rate 1 = m.rate := by omega
  have hbatch : ∀ e, e ∈ (Batch.ofCommands cs m.rate).entries ↔
      ∃ c ∈ cs, Entry.ofCommand m.rate c = e := by
    intro e
    rw [Batch.ofCommands, sortByStart, List.mem_mergeSort, List.mem_reverse, hrate, List.mem_map]
  have hqueue : ∀ e, e ∈ (m.schedule cs).queue ↔
      (∃ c ∈ cs, Entry.ofCommand m.rate c = e) ∨ e ∈ m.queue := by
    intro e
    rw [← hbatch, ← List.mem_append]
    exact List.mem_mergeSort
  simp only [Mixer.stops, List.mem_append, List.mem_map]
  constructor
  · rintro (⟨e, he, rfl⟩ | hs)
    · rcases (hqueue e).mp he with ⟨c, hc, rfl⟩ | he
      · exact .inr ⟨c, hc, rfl⟩
      · exact .inl (.inl ⟨e, he, rfl⟩)
    · exact .inl (.inr hs)
  · rintro ((⟨e, he, rfl⟩ | hs) | ⟨c, hc, rfl⟩)
    · exact .inl ⟨e, (hqueue e).mpr (.inr he), rfl⟩
    · exact .inr hs
    · exact .inl ⟨_, (hqueue _).mpr (.inl ⟨c, hc, rfl⟩), rfl⟩

section
variable {cs : List (Command Float)} {base endsAt : Float} (h : ∀ c ∈ cs, c.Follows base)
  (hend : IsLatestStop cs endsAt)
include h hend

theorem stop_ofCommand_le {rate : Nat} {c : Command Float} (hc : c ∈ cs) :
    (Entry.ofCommand rate c).stop ≤ frameAt endsAt rate := by
  have hc' := h c hc
  have hstop : frameAt c.stop rate ≤ frameAt endsAt rate :=
    frameAt_mono hc'.stop hend.nonNegative (hend.le c hc)
  have hstart : frameAt c.start rate ≤ frameAt c.stop rate :=
    frameAt_mono hc'.start hc'.stop hc'.start_le
  exact max_le hstop (hstart.trans hstop)

/-- Tones move the end of a mixer to the frame of their latest stop, unless it ended later. -/
theorem endFrame_schedule (m : Mixer) (hrate : 0 < m.rate) :
    (m.schedule cs).endFrame = max m.endFrame (frameAt endsAt m.rate) := by
  obtain ⟨hframe, hold⟩ := foldl_max_le_iff.mp (le_refl m.endFrame)
  obtain ⟨hframe', hnew⟩ := foldl_max_le_iff.mp (le_refl (m.schedule cs).endFrame)
  refine le_antisymm (foldl_max_le_iff.mpr ⟨le_max_of_le_left hframe, ?_⟩) (max_le ?_ ?_)
  · intro n hn
    rcases (mem_stops_schedule hrate).mp hn with hn | ⟨c, hc, rfl⟩
    · exact le_max_of_le_left (hold n hn)
    · exact le_max_of_le_right (stop_ofCommand_le h hend hc)
  · refine foldl_max_le_iff.mpr ⟨hframe', fun n hn => ?_⟩
    exact hnew n ((mem_stops_schedule hrate).mpr (.inl hn))
  · obtain ⟨c, hc, hstop⟩ := hend.reached
    rw [← frameAt_congr (h c hc).stop hend.nonNegative hstop]
    refine le_trans (le_max_left _ _) (hnew (Entry.ofCommand m.rate c).stop ?_)
    exact (mem_stops_schedule hrate).mpr (.inr ⟨c, hc, rfl⟩)

end

/-! ## A renderer -/

theorem size_render (o : Offline) :
    o.render.1.size = (o.mixer.endFrame - o.mixer.frame) * o.mixer.channels :=
  o.mixer.size_fill _

end ScoreSynth.Output
