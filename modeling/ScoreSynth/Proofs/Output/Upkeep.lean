import ScoreSynth.Proofs.Number.Comparison
import ScoreSynth.Proofs.Output.Desk
import ScoreSynth.Proofs.Output.Remainder
import ScoreSynth.Proofs.Output.Window

/-!
# What always holds of a desk

Whatever is asked of a desk: its queue is in order, each tone that waits stops no earlier than it
starts, no voice is left that stopped before the clock, the volume is a level from 0 to 1, and there
is a channel and a rate. Late tones may wait past their start, but each frame begins with taking from
the queue all that is due, so none is left over behind it.
-/

namespace ScoreSynth.Output

/-! ## Levels -/

structure IsLevel (v : Float32) : Prop where
  isNaN : v.isNaN = false
  nonneg : 0.0 ≤ v
  le_one : v ≤ 1.0

theorem isLevel_full : IsLevel 1.0 := ⟨by decide, by decide, by decide⟩

theorem lt_iff_unpack {v w : Float32} : v < w ↔ v.toModel.unpack.lt w.toModel.unpack = true :=
  decide_eq_true_iff

theorem le_iff_unpack {v w : Float32} : v ≤ w ↔ v.toModel.unpack.le w.toModel.unpack = true :=
  decide_eq_true_iff

theorem isLevel_clampSample {v : Float32} (h : v.isNaN = false) :
    IsLevel (clampSample 0.0 1.0 v) := by
  unfold clampSample
  split
  · exact ⟨by decide, by decide, by decide⟩
  · split
    · exact isLevel_full
    · rename_i hlow hhigh
      rw [lt_iff_unpack] at hlow hhigh
      exact ⟨h, le_iff_unpack.mpr (Number.le_of_not_lt h (by decide) hlow),
        le_iff_unpack.mpr (Number.le_of_not_lt (by decide) h hhigh)⟩

/-! ## Mixers in good order -/

structure Mixer.WellKept (m : Mixer) : Prop where
  rate : 1 ≤ m.rate
  channels : 1 ≤ m.channels
  order : InOrder m.queue
  lasts : ∀ e ∈ m.queue, e.start ≤ e.stop
  sounds : ∀ s ∈ m.sounding, m.frame ≤ s.stop
  volume : IsLevel m.volume

namespace Mixer

variable {m : Mixer}

theorem start_le_stop_ofCommands (cs : List (Command Float)) (rate : Nat) :
    ∀ e ∈ (Batch.ofCommands cs rate).entries, e.start ≤ e.stop := by
  intro e he
  rw [Batch.ofCommands, sortByStart, List.mem_mergeSort, List.mem_reverse, List.mem_map] at he
  obtain ⟨c, -, rfl⟩ := he
  exact Nat.le_max_right _ _

/-- In a queue in order, nothing stands behind the tones that are due that is due as well. -/
theorem lt_start_of_mem_startDue (h : InOrder m.queue) :
    ∀ e ∈ m.startDue.queue, m.frame < e.start := by
  show ∀ e ∈ m.queue.dropWhile (fun e => e.start ≤ m.frame), m.frame < e.start
  generalize m.queue = queue at h
  induction queue with
  | nil => simp
  | cons a queue ih =>
    obtain ⟨ha, hqueue⟩ := List.pairwise_cons.mp h
    by_cases hdue : a.start ≤ m.frame
    · rw [List.dropWhile_cons_of_pos (by simpa using hdue)]
      exact ih hqueue
    · rw [List.dropWhile_cons_of_neg (by simpa using hdue)]
      intro e he
      rcases List.mem_cons.mp he with rfl | he
      · omega
      · have := ha e he
        omega

theorem lt_stop_of_mem_next : ∀ s ∈ m.next.2.sounding, m.frame < s.stop := by
  intro s hs
  have hs : s ∈ (m.startDue.dropStopped.sounding.map fun s => (s.voice.next, s.stop)).map
      fun p => (⟨p.1.2, p.2⟩ : Sounding) := hs
  rw [List.map_map] at hs
  obtain ⟨r, hr, rfl⟩ := List.mem_map.mp hs
  exact of_decide_eq_true (List.mem_filter.mp hr).2

theorem wellKept_start (rate channels : Nat) (seed : UInt64) :
    (start rate channels seed).WellKept where
  rate := Nat.le_max_right _ _
  channels := Nat.le_max_right _ _
  order := .nil
  lasts := by simp [start]
  sounds := by simp [start]
  volume := isLevel_full

namespace WellKept

theorem next (h : m.WellKept) : m.next.2.WellKept where
  rate := h.rate
  channels := h.channels
  order := h.order.sublist (List.dropWhile_sublist _)
  lasts := fun e he => h.lasts e ((List.dropWhile_sublist _).subset he)
  sounds := lt_stop_of_mem_next
  volume := h.volume

theorem after (h : m.WellKept) (n : Nat) : (m.after n).WellKept := by
  induction n with
  | zero => exact h
  | succ n ih =>
    rw [after_succ']
    exact ih.next

theorem enqueue (h : m.WellKept) {b : Batch} (hb : ∀ e ∈ b.entries, e.start ≤ e.stop) :
    (m.enqueue b).WellKept :=
  { h with
    order := inOrder_sortByStart _
    lasts := by
      intro e he
      rcases List.mem_append.mp (List.mem_mergeSort.mp he) with he | he
      · exact hb e he
      · exact h.lasts e he }

theorem setVolume (h : m.WellKept) (v : Float32) : (m.setVolume v).WellKept := by
  unfold Mixer.setVolume
  split
  · exact h
  · rename_i hv
    exact { h with volume := isLevel_clampSample (by simpa using hv) }

theorem clear (h : m.WellKept) : m.clear.WellKept :=
  { h with
    order := .nil
    lasts := by simp [Mixer.clear]
    sounds := by simp [Mixer.clear] }

theorem perform (h : m.WellKept) (r : Request) : (m.perform r.call).WellKept := by
  cases r with
  | schedule room cs => exact h.enqueue (start_le_stop_ofCommands cs m.rate)
  | enqueue room cs rate => exact h.enqueue (start_le_stop_ofCommands cs rate)
  | reserve tones => exact h
  | setVolume v => exact h.setVolume v
  | clear => exact h.clear
  | fill size =>
    show (m.fill size).2.WellKept
    rw [fill_snd]
    exact h.after _

theorem performAll (h : m.WellKept) (requests : List Request) :
    (m.performAll (requests.map Request.call)).WellKept := by
  induction requests generalizing m with
  | nil => exact h
  | cons r requests ih => exact ih (h.perform r)

/-- Behind a block that is not empty, no tone waits past its start. -/
theorem le_start_fill (h : m.WellKept) {size : Nat} (hsize : 0 < size) :
    ∀ e ∈ (m.fill size).2.queue, (m.fill size).2.frame ≤ e.start := by
  have hframes : 0 < framesIn m.channels size :=
    Nat.lt_of_le_of_lt (Nat.zero_le _) (div_lt_framesIn h.channels hsize)
  obtain ⟨n, hn⟩ := Nat.exists_eq_succ_of_ne_zero hframes.ne'
  rw [fill_snd, hn, after_succ']
  exact lt_start_of_mem_startDue (h.after n).order

end WellKept

/-- The voices of a mixer are those of tones that came and were not cleared, begun before now. -/
theorem exists_playing (rate channels : Nat) (seed : UInt64) (calls : List Call) :
    let m := (start rate channels seed).performAll calls
    ∃ playing : List (Arrival × UInt64),
      m.sounding = playing.map (Arrival.sounding m.rate m.frame) ∧
      (playing.map (·.1)).Subperm ((Timeline.start rate channels).performAll calls).present ∧
      ∀ q ∈ playing, q.1.entry.start < m.frame := by
  intro m
  obtain ⟨p, h⟩ := performAll_start_follows rate channels seed calls
  refine ⟨p.playing, ?_, ?_, fun q hq => ?_⟩
  · rw [h.sounding, ← h.rate, ← h.frame]
  · refine List.Subperm.trans ?_ h.present.symm.subperm
    refine List.Sublist.subperm ?_
    exact (List.sublist_append_left _ _).trans (List.sublist_append_right _ _)
  · rw [show m.frame = _ from h.frame]
    exact Nat.lt_of_le_of_lt q.1.start_le_due (h.begun q hq)

end Mixer

/-- Frames of a block are its values over the channels, rounded up. -/
theorem framesIn_eq_ceil {channels : Nat} (hc : 0 < channels) (size : Nat) :
    framesIn channels size = ⌈(size / channels : ℚ)⌉₊ := by
  have hpos : (0 : ℚ) < channels := by exact_mod_cast hc
  refine eq_of_forall_ge_iff fun k => ?_
  rw [Nat.ceil_le, div_le_iff₀ hpos]
  have hcast : (size : ℚ) ≤ k * channels ↔ size ≤ k * channels := by exact_mod_cast Iff.rfl
  rw [hcast, framesIn, Nat.div_le_iff_le_mul_add_pred hc]
  rw [Nat.mul_comm k]
  omega

theorem max_getD_max?_le_iff {ns : List Nat} {a k : Nat} :
    max (ns.max?.getD a) a ≤ k ↔ a ≤ k ∧ ∀ n ∈ ns, n ≤ k := by
  rw [Nat.max_le]
  cases h : ns.max? with
  | none =>
    obtain rfl := List.max?_eq_none_iff.mp h
    simp
  | some b =>
    rw [Option.getD_some, List.max?_le_iff h]
    exact and_comm

namespace Desk

def endFrame (d : Desk) : Nat :=
  max ((d.pending.map (·.stop) ++ d.mixer.sounding.map (·.stop)).max?.getD d.mixer.frame)
    d.mixer.frame

theorem endFrame_le_iff {d : Desk} {k : Nat} : d.endFrame ≤ k ↔ d.mixer.frame ≤ k ∧
    (∀ e ∈ d.pending, e.stop ≤ k) ∧ ∀ s ∈ d.mixer.sounding, s.stop ≤ k := by
  unfold endFrame
  rw [max_getD_max?_le_iff, List.forall_mem_append, List.forall_mem_map, List.forall_mem_map]

theorem endFrame_view (d : Desk) : d.view.endFrame = d.endFrame := by
  refine eq_of_forall_ge_iff fun k => ?_
  rw [Mixer.endFrame_le_iff, endFrame_le_iff, Mixer.stops, List.forall_mem_append,
    List.forall_mem_map, List.forall_mem_map]
  simp [view]

theorem mem_view {d : Desk} {e : Entry} : e ∈ d.view.queue ↔ e ∈ d.pending := List.mem_reverse

/-- What a block does to the clock of a desk in good order and to the tones that wait. -/
theorem fill_keeps {d : Desk} (h : d.view.WellKept) (size : Nat) :
    (d.fill size).2.mixer.frame = d.mixer.frame + ⌈(size / d.mixer.channels : ℚ)⌉₊ ∧
      (0 < size → ∀ e ∈ (d.fill size).2.pending, (d.fill size).2.mixer.frame ≤ e.start) := by
  have hfill : (d.fill size).2.view = (d.view.fill size).2 := congrArg Prod.snd (fill_view d size)
  have hframe : (d.fill size).2.mixer.frame = (d.view.fill size).2.frame := by
    rw [← hfill]
    rfl
  rw [hframe]
  constructor
  · rw [Mixer.fill_frame, framesIn_eq_ceil h.channels]
    rfl
  · intro hsize e he
    apply h.le_start_fill hsize
    rw [← hfill]
    exact mem_view.mpr he

end Desk

/--
However a desk was used: it is the mixer that was used so, its queue is in order with the latest
first, each tone that waits stops no earlier than it starts, no voice has stopped before the clock,
and each is that of a tone that came, was not cleared and started before the clock. The end is before
neither the clock nor the stop of any tone held, the volume is a number from 0 to 1, and there is a
channel and a rate. A block moves the clock by its values over the channels, rounded up; if it is not
empty, no tone waits behind it past its start.
-/
theorem desk_well_kept (rate channels : Nat) (seed : UInt64) (requests : List Request) :
    let d := (Desk.start rate channels seed).performAll requests
    let calls := requests.map Request.call
    d.view = (Mixer.start rate channels seed).performAll calls ∧
      d.pending.Pairwise (fun a b => b.start ≤ a.start) ∧
      (∀ e ∈ d.pending, e.start ≤ e.stop) ∧
      (∀ s ∈ d.mixer.sounding, d.mixer.frame ≤ s.stop) ∧
      (∃ playing : List (Arrival × UInt64),
        d.mixer.sounding = playing.map (Arrival.sounding d.mixer.rate d.mixer.frame) ∧
        (playing.map (·.1)).Subperm ((Timeline.start rate channels).performAll calls).present ∧
        ∀ q ∈ playing, q.1.entry.start < d.mixer.frame) ∧
      (d.endFrame = d.view.endFrame ∧ d.mixer.frame ≤ d.endFrame ∧
        (∀ e ∈ d.pending, e.stop ≤ d.endFrame) ∧ ∀ s ∈ d.mixer.sounding, s.stop ≤ d.endFrame) ∧
      (d.mixer.volume.isNaN = false ∧ 0.0 ≤ d.mixer.volume ∧ d.mixer.volume ≤ 1.0) ∧
      1 ≤ d.mixer.channels ∧ 1 ≤ d.mixer.rate ∧
      ∀ size, (d.fill size).2.mixer.frame =
          d.mixer.frame + ⌈(size / d.mixer.channels : ℚ)⌉₊ ∧
        (0 < size → ∀ e ∈ (d.fill size).2.pending, (d.fill size).2.mixer.frame ≤ e.start) := by
  intro d calls
  have hview : d.view = (Mixer.start rate channels seed).performAll calls :=
    Desk.performAll_view _ requests
  have h : d.view.WellKept := by
    rw [hview]
    exact (Mixer.wellKept_start rate channels seed).performAll requests
  have hend := Desk.endFrame_le_iff.mp (Nat.le_refl d.endFrame)
  refine ⟨hview, List.pairwise_reverse.mp h.order, fun e he => h.lasts e (Desk.mem_view.mpr he),
    h.sounds, ?_, ⟨d.endFrame_view.symm, hend⟩, ⟨h.volume.isNaN, h.volume.nonneg, h.volume.le_one⟩,
    h.channels, h.rate, Desk.fill_keeps h⟩
  have hplaying := Mixer.exists_playing rate channels seed calls
  rw [← hview] at hplaying
  exact hplaying

end ScoreSynth.Output
