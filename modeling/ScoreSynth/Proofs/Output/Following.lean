import Mathlib.Data.List.Forall2
import Mathlib.Data.List.Induction
import Mathlib.Data.List.Perm.Basic
import Mathlib.Data.List.TakeWhile
import ScoreSynth.Proofs.Output.Sorting
import ScoreSynth.Proofs.Output.Timeline

/-!
# Mixers that follow a timeline

The tones of a timeline are parted into those that wait in the queue, those that have a voice and
those that are over. A mixer follows the timeline if its queue and its voices are these, each voice
as far on as its tone. Every call keeps this, so at every frame the mixer sounds what the timeline
says is heard.
-/

namespace ScoreSynth.Output

open Sound (Voice)

/-- Tones that leave a queue one after the other, each with the seed of its voice. -/
def seeded : UInt64 → List Arrival → List (Arrival × UInt64)
  | _, [] => []
  | seed, a :: as => (a, seed + 1) :: seeded (seed + 1) as

theorem map_fst_seeded (seed : UInt64) (as : List Arrival) : (seeded seed as).map (·.1) = as := by
  induction as generalizing seed with
  | nil => rfl
  | cons a as ih => simp [seeded, ih]

theorem fst_mem_of_mem_seeded {seed : UInt64} {as : List Arrival} {q : Arrival × UInt64}
    (h : q ∈ seeded seed as) : q.1 ∈ as := by
  rw [← map_fst_seeded seed as]; exact List.mem_map_of_mem h

theorem seeded_append (seed : UInt64) (as bs : List Arrival) :
    seeded seed (as ++ bs) = seeded seed as ++ seeded (seed + UInt64.ofNat as.length) bs := by
  induction as generalizing seed with
  | nil => simp [seeded]
  | cons a as ih =>
    simp only [List.cons_append, seeded, ih, List.length_cons, UInt64.ofNat_add, UInt64.ofNat_one]
    rw [UInt64.add_assoc seed 1, UInt64.add_comm 1]

def Arrival.sounding (rate frame : Nat) (p : Arrival × UInt64) : Sounding :=
  ⟨p.1.voiceAt rate frame p.2, p.1.entry.stop⟩

theorem voices_map_entry (rate frame : Nat) (seed : UInt64) (as : List Arrival)
    (h : ∀ a ∈ as, a.due = frame) :
    Mixer.voices rate seed (as.map (·.entry)) =
      (seeded seed as).map (Arrival.sounding rate frame) := by
  induction as generalizing seed with
  | nil => rfl
  | cons a as ih =>
    have hd : a.due = frame := h a (by simp)
    simp only [List.map_cons, Mixer.voices, seeded, ih (seed + 1) fun b hb => h b (by simp [hb])]
    simp [Arrival.sounding, Arrival.voiceAt, hd, Voice.after]

/-- The tones of a timeline by how far they are. -/
structure Parts where
  waiting : List Arrival
  playing : List (Arrival × UInt64)
  past : List Arrival
  /-- All that ever left the queue, in order, also those that were cleared since. -/
  left : List Arrival

structure Follows (seed : UInt64) (p : Parts) (m : Mixer) (t : Timeline) : Prop where
  rate : m.rate = t.rate
  rate_pos : 0 < t.rate
  channels : m.channels = t.channels
  channels_pos : 0 < t.channels
  frame : m.frame = t.frame
  volume : m.volume = t.volume
  queue : m.queue = p.waiting.map (·.entry)
  sounding : m.sounding = p.playing.map (Arrival.sounding t.rate t.frame)
  counted : m.seed = seed + UInt64.ofNat p.left.length
  present : t.present.Perm (p.waiting ++ (p.playing.map (·.1) ++ p.past))
  sorted : p.waiting.Pairwise fun a b => a.entry.start ≤ b.entry.start
  came : ∀ a ∈ p.waiting, a.frame ≤ t.frame
  ahead : ∀ a ∈ p.waiting, t.frame ≤ a.due
  begun : ∀ q ∈ p.playing, q.1.due < t.frame
  ended : ∀ a ∈ p.past, a.entry.stop ≤ t.frame
  logged : ∀ q ∈ p.playing, q ∈ seeded seed p.left
  numbered : ∀ a ∈ p.left ++ p.waiting, a.number < t.arrived
  distinct : ((p.left ++ p.waiting).map (·.number)).Nodup

def Agrees (seeds : Nat → UInt64) (seed : UInt64) (left : List Arrival) : Prop :=
  ∀ q ∈ seeded seed left, seeds q.1.number = q.2

theorem Agrees.of_prefix {seeds : Nat → UInt64} {seed : UInt64} {left left' : List Arrival}
    (h : left <+: left') (ha : Agrees seeds seed left') : Agrees seeds seed left := by
  obtain ⟨more, rfl⟩ := h
  intro q hq
  exact ha q (by rw [seeded_append]; exact List.mem_append_left _ hq)

theorem exists_agrees (seed : UInt64) {left : List Arrival} (h : (left.map (·.number)).Nodup) :
    ∃ seeds, Agrees seeds seed left := by
  induction left generalizing seed with
  | nil => exact ⟨fun _ => 0, fun q hq => by cases hq⟩
  | cons a left ih =>
    obtain ⟨ha, hl⟩ := List.nodup_cons.mp h
    obtain ⟨seeds, hs⟩ := ih (seed + 1) hl
    refine ⟨fun n => if n = a.number then seed + 1 else seeds n, fun q hq => ?_⟩
    rcases List.mem_cons.mp hq with rfl | hq
    · simp
    · have hn : q.1.number ∈ left.map (·.number) := List.mem_map_of_mem (fst_mem_of_mem_seeded hq)
      have hne : q.1.number ≠ a.number := fun e => ha (show a.number ∈ _ from e ▸ hn)
      simp [hne, hs q hq]

/-! ## Queues -/

def sortArrivals (as : List Arrival) : List Arrival :=
  as.mergeSort fun a b => a.entry.notLater b.entry

theorem sortArrivals_perm (as : List Arrival) : (sortArrivals as).Perm as := List.mergeSort_perm _ _

theorem sorted_sortArrivals (as : List Arrival) :
    (sortArrivals as).Pairwise fun a b => a.entry.start ≤ b.entry.start := by
  have h : (sortArrivals as).Pairwise fun a b => a.entry.notLater b.entry = true :=
    List.pairwise_mergeSort (fun a b c => notLater_trans a.entry b.entry c.entry)
      (fun a b => notLater_total a.entry b.entry) as
  exact h.imp fun hab => by simpa [Entry.notLater] using hab

theorem map_entry_sortArrivals (as : List Arrival) :
    (sortArrivals as).map (·.entry) = sortByStart (as.map (·.entry)) :=
  List.map_mergeSort fun _ _ _ _ => rfl

/-- Tones can be brought into any order of their entries. -/
theorem exists_map_entry_of_perm {es : List Entry} {as : List Arrival}
    (h : es.Perm (as.map (·.entry))) :
    ∃ bs : List Arrival, bs.map (·.entry) = es ∧ bs.Perm as := by
  have hf : List.Forall₂ (fun e (a : Arrival) => e = a.entry) (as.map (·.entry)) as :=
    List.forall₂_map_left_iff.mpr (List.forall₂_same.mpr fun _ _ => rfl)
  obtain ⟨bs, hbs, hp⟩ := List.perm_comp_forall₂ h hf
  have he : List.Forall₂ (· = ·) es (bs.map (·.entry)) := List.forall₂_map_right_iff.mpr hbs
  rw [List.forall₂_eq_eq_eq] at he
  exact ⟨bs, he.symm, hp⟩

/-! ## The next frame -/

theorem lt_start_of_mem_dropWhile {frame : Nat} {as : List Arrival}
    (h : as.Pairwise fun a b => a.entry.start ≤ b.entry.start) :
    ∀ a ∈ as.dropWhile fun a => a.entry.start ≤ frame, frame < a.entry.start := by
  induction as with
  | nil => simp
  | cons b as ih =>
    obtain ⟨hb, has⟩ := List.pairwise_cons.mp h
    by_cases hs : b.entry.start ≤ frame
    · simpa [List.dropWhile_cons, hs] using ih has
    · intro a ha
      rw [List.dropWhile_cons_of_neg (by simpa using hs)] at ha
      rcases List.mem_cons.mp ha with rfl | ha
      · omega
      · have := hb a ha; omega

namespace Parts

def due (p : Parts) (frame : Nat) : List Arrival :=
  p.waiting.takeWhile fun a => a.entry.start ≤ frame

def later (p : Parts) (frame : Nat) : List Arrival :=
  p.waiting.dropWhile fun a => a.entry.start ≤ frame

def voiced (p : Parts) (seed : UInt64) (frame : Nat) : List (Arrival × UInt64) :=
  p.playing ++ seeded (seed + UInt64.ofNat p.left.length) (p.due frame)

def current (p : Parts) (seed : UInt64) (frame : Nat) : List (Arrival × UInt64) :=
  (p.voiced seed frame).filter fun q => frame < q.1.entry.stop

def next (p : Parts) (seed : UInt64) (frame : Nat) : Parts where
  waiting := p.later frame
  playing := p.current seed frame
  past := ((p.voiced seed frame).filter fun q => !decide (frame < q.1.entry.stop)).map (·.1) ++ p.past
  left := p.left ++ p.due frame

theorem due_append_later (p : Parts) (frame : Nat) : p.due frame ++ p.later frame = p.waiting :=
  List.takeWhile_append_dropWhile

theorem mem_waiting_of_due {p : Parts} {frame : Nat} {a : Arrival} (h : a ∈ p.due frame) :
    a ∈ p.waiting := by
  rw [← p.due_append_later frame]; exact List.mem_append_left _ h

theorem mem_waiting_of_later {p : Parts} {frame : Nat} {a : Arrival} (h : a ∈ p.later frame) :
    a ∈ p.waiting := by
  rw [← p.due_append_later frame]; exact List.mem_append_right _ h

end Parts

namespace Follows

variable {seed : UInt64} {p : Parts} {m : Mixer} {t : Timeline}

/-- A tone leaves the queue in the very frame in which it falls due. -/
theorem due_eq (h : Follows seed p m t) {a : Arrival} (ha : a ∈ p.due t.frame) :
    a.due = t.frame := by
  have hw := Parts.mem_waiting_of_due ha
  have hs : a.entry.start ≤ t.frame := by simpa using List.mem_takeWhile_imp ha
  have hc := h.came a hw
  have hd := h.ahead a hw
  unfold Arrival.due at *; omega

theorem startDue_sounding (h : Follows seed p m t) :
    m.startDue.sounding = (p.voiced seed t.frame).map (Arrival.sounding t.rate t.frame) := by
  have hm : m.due = (p.due t.frame).map (·.entry) := by
    rw [Mixer.due, h.queue, List.takeWhile_map, h.frame]; rfl
  simp only [Mixer.startDue, hm, h.sounding, h.rate, h.counted]
  rw [voices_map_entry t.rate t.frame _ _ fun a ha => h.due_eq ha, ← List.map_append]
  rfl

theorem dropStopped_sounding (h : Follows seed p m t) :
    m.startDue.dropStopped.sounding =
      (p.current seed t.frame).map (Arrival.sounding t.rate t.frame) := by
  have hf : m.startDue.frame = t.frame := h.frame
  simp only [Mixer.dropStopped, h.startDue_sounding, hf, List.filter_map]
  rfl

theorem due_le_of_voiced (h : Follows seed p m t) {q : Arrival × UInt64}
    (hq : q ∈ p.voiced seed t.frame) : q.1.due ≤ t.frame := by
  rcases List.mem_append.mp hq with hq | hq
  · exact Nat.le_of_lt (h.begun q hq)
  · exact Nat.le_of_eq (h.due_eq (fst_mem_of_mem_seeded hq))

theorem lt_start_of_later (h : Follows seed p m t) {a : Arrival} (ha : a ∈ p.later t.frame) :
    t.frame < a.entry.start :=
  lt_start_of_mem_dropWhile h.sorted a ha

theorem mem_seeded_of_voiced (h : Follows seed p m t) {q : Arrival × UInt64}
    (hq : q ∈ p.voiced seed t.frame) : q ∈ seeded seed (p.next seed t.frame).left := by
  rw [show (p.next seed t.frame).left = p.left ++ p.due t.frame from rfl, seeded_append]
  rcases List.mem_append.mp hq with hq | hq
  · exact List.mem_append_left _ (h.logged q hq)
  · exact List.mem_append_right _ hq

theorem present_voiced (h : Follows seed p m t) :
    t.present.Perm (p.later t.frame ++ ((p.voiced seed t.frame).map (·.1) ++ p.past)) := by
  refine h.present.trans ?_
  simp only [Parts.voiced, List.map_append, map_fst_seeded]
  rw [← p.due_append_later t.frame]
  -- the tones that are due move over to those that have a voice
  have hp : (p.due t.frame ++ (p.later t.frame ++ p.playing.map (·.1))).Perm
      (p.later t.frame ++ p.playing.map (·.1) ++ p.due t.frame) := List.perm_append_comm
  simpa [List.append_assoc] using hp.append_right p.past

theorem sounds_eq (h : Follows seed p m t) :
    m.sounds = (p.current seed t.frame).map fun q => (q.1.voiceAt t.rate t.frame q.2).next.1 := by
  rw [Mixer.sounds, h.dropStopped_sounding, List.map_map]
  rfl

theorem heard_perm_current (h : Follows seed p m t) :
    (t.present.filter (Arrival.isHeard t.frame)).Perm ((p.current seed t.frame).map (·.1)) := by
  have hlater : (p.later t.frame).filter (Arrival.isHeard t.frame) = [] := by
    rw [List.filter_eq_nil_iff]
    intro a ha
    have hs := h.lt_start_of_later ha
    have hd := a.start_le_due
    rw [Arrival.isHeard_iff]; omega
  have hpast : p.past.filter (Arrival.isHeard t.frame) = [] := by
    rw [List.filter_eq_nil_iff]
    intro a ha
    have hs := h.ended a ha
    rw [Arrival.isHeard_iff]; omega
  have hvoiced : ((p.voiced seed t.frame).map (·.1)).filter (Arrival.isHeard t.frame) =
      (p.current seed t.frame).map (·.1) := by
    rw [List.filter_map, Parts.current]
    congr 1
    apply List.filter_congr; intro q hq
    simp [Arrival.isHeard, h.due_le_of_voiced hq]
  have hp := h.present_voiced.filter (Arrival.isHeard t.frame)
  simpa [List.filter_append, hlater, hpast, hvoiced] using hp

/-- The mixer sounds what the timeline says is heard. -/
theorem sounds_perm (h : Follows seed p m t) {seeds : Nat → UInt64}
    (ha : Agrees seeds seed (p.next seed t.frame).left) :
    m.sounds.Perm (t.heard seeds t.frame) := by
  have hs : m.sounds = ((p.current seed t.frame).map (·.1)).map fun a =>
      (a.voiceAt t.rate t.frame (seeds a.number)).next.1 := by
    rw [h.sounds_eq, List.map_map]
    apply List.map_congr_left; intro q hq
    have hv : q ∈ p.voiced seed t.frame := List.mem_of_mem_filter hq
    simp [ha q (h.mem_seeded_of_voiced hv)]
  rw [hs]
  exact (h.heard_perm_current.map _).symm

theorem next_sounding (h : Follows seed p m t) :
    m.next.2.sounding =
      (p.current seed t.frame).map (Arrival.sounding t.rate (t.frame + 1)) := by
  simp only [Mixer.next, Mixer.mix, h.dropStopped_sounding, List.map_map]
  apply List.map_congr_left; intro q hq
  have hd := h.due_le_of_voiced (List.mem_of_mem_filter hq)
  have hf : t.frame + 1 - q.1.due = (t.frame - q.1.due) + 1 := by omega
  simp only [Function.comp_apply, Arrival.sounding, Arrival.voiceAt, hf, Voice.after,
    Function.iterate_succ_apply']

theorem next (h : Follows seed p m t) :
    Follows seed (p.next seed t.frame) m.next.2 { t with frame := t.frame + 1 } where
  rate := h.rate
  rate_pos := h.rate_pos
  channels := h.channels
  channels_pos := h.channels_pos
  frame := congrArg (· + 1) h.frame
  volume := h.volume
  queue := by
    show m.queue.dropWhile _ = _
    rw [h.queue, List.dropWhile_map, h.frame]; rfl
  sounding := h.next_sounding
  counted := by
    have hm : m.due.length = (p.due t.frame).length := by
      rw [Mixer.due, h.queue, List.takeWhile_map, h.frame, List.length_map]; rfl
    show m.seed + UInt64.ofNat m.due.length = seed + UInt64.ofNat (p.left ++ p.due t.frame).length
    rw [h.counted, hm, List.length_append, UInt64.ofNat_add, UInt64.add_assoc]
  present := by
    refine h.present_voiced.trans (List.Perm.append_left _ ?_)
    simp only [Parts.next, Parts.current, ← List.append_assoc, ← List.map_append]
    exact ((List.filter_append_perm _ _).symm.map _).append_right _
  sorted := h.sorted.sublist (List.dropWhile_sublist _)
  came := fun a ha => Nat.le_succ_of_le (h.came a (Parts.mem_waiting_of_later ha))
  ahead := fun a ha => by
    have hs := h.lt_start_of_later ha
    show t.frame + 1 ≤ max a.entry.start a.frame; omega
  begun := fun q hq => Nat.lt_succ_of_le (h.due_le_of_voiced (List.mem_of_mem_filter hq))
  ended := fun a ha => by
    show a.entry.stop ≤ t.frame + 1
    rcases List.mem_append.mp ha with ha | ha
    · obtain ⟨q, hq, rfl⟩ := List.mem_map.mp ha
      have hs : ¬ t.frame < q.1.entry.stop := by simpa using (List.mem_filter.mp hq).2
      omega
    · have := h.ended a ha; omega
  logged := fun q hq => h.mem_seeded_of_voiced (List.mem_of_mem_filter hq)
  numbered := by
    show ∀ a ∈ p.left ++ p.due t.frame ++ p.later t.frame, _
    rw [List.append_assoc, p.due_append_later]; exact h.numbered
  distinct := by
    show ((p.left ++ p.due t.frame ++ p.later t.frame).map _).Nodup
    rw [List.append_assoc, p.due_append_later]; exact h.distinct

/-! ## Calls -/

/-- After `n` frames the parts have moved on, and each of these frames sounded as it should. -/
theorem after (h : Follows seed p m t) (n : Nat) :
    ∃ p', p.left <+: p'.left ∧ Follows seed p' (m.after n) { t with frame := t.frame + n } ∧
      ∀ seeds, Agrees seeds seed p'.left →
        ∀ i < n, (m.after i).sounds.Perm (t.heard seeds (t.frame + i)) := by
  induction n with
  | zero => exact ⟨p, List.prefix_rfl, h, fun _ _ i hi => absurd hi (Nat.not_lt_zero i)⟩
  | succ n ih =>
    obtain ⟨p', hp, hf, hs⟩ := ih
    have hleft : p'.left <+: (p'.next seed (t.frame + n)).left := List.prefix_append _ _
    refine ⟨p'.next seed (t.frame + n), hp.trans hleft, ?_, fun seeds ha i hi => ?_⟩
    · rw [Mixer.after_succ']; exact hf.next
    · rcases Nat.lt_succ_iff_lt_or_eq.mp hi with hi | rfl
      · exact hs seeds (ha.of_prefix hleft) i hi
      · exact hf.sounds_perm ha

theorem enqueue (h : Follows seed p m t) {b : Batch} {es : List Entry}
    (hb : b.entries.Perm es) :
    ∃ p', p.left <+: p'.left ∧ Follows seed p' (m.enqueue b) (t.arrive es) := by
  -- the new tones in the order of the batch, and then in the order of the queue
  obtain ⟨new, hnew, hperm⟩ := exists_map_entry_of_perm
    (hb.trans (List.Perm.of_eq (t.map_entry_arrivals es).symm))
  have hmem : ∀ a ∈ sortArrivals (new ++ p.waiting), a ∈ t.arrivals es ∨ a ∈ p.waiting := by
    intro a ha
    rcases List.mem_append.mp ((sortArrivals_perm _).mem_iff.mp ha) with ha | ha
    · exact .inl (hperm.mem_iff.mp ha)
    · exact .inr ha
  have hall : (p.left ++ sortArrivals (new ++ p.waiting)).Perm
      (t.arrivals es ++ (p.left ++ p.waiting)) := by
    refine ((sortArrivals_perm _).append_left _).trans ?_
    rw [← List.append_assoc, ← List.append_assoc]
    exact (List.perm_append_comm.trans (hperm.append_right _)).append_right _
  refine ⟨{ p with waiting := sortArrivals (new ++ p.waiting) }, List.prefix_rfl, ?_⟩
  exact {
    rate := h.rate
    rate_pos := h.rate_pos
    channels := h.channels
    channels_pos := h.channels_pos
    frame := h.frame
    volume := h.volume
    queue := by
      show sortByStart (b.entries ++ m.queue) = _
      rw [map_entry_sortArrivals, List.map_append, hnew, h.queue]
    sounding := h.sounding
    counted := h.counted
    present := by
      show (t.present ++ t.arrivals es).Perm _
      refine List.perm_append_comm.trans ?_
      refine (hperm.symm.append h.present).trans ?_
      rw [← List.append_assoc]
      exact (sortArrivals_perm _).symm.append_right _
    sorted := sorted_sortArrivals _
    came := fun a ha => by
      show a.frame ≤ t.frame
      rcases hmem a ha with ha | ha
      · exact Nat.le_of_eq (Timeline.frame_of_mem_arrivals ha)
      · exact h.came a ha
    ahead := fun a ha => by
      show t.frame ≤ a.due
      rcases hmem a ha with ha | ha
      · rw [← Timeline.frame_of_mem_arrivals ha]; exact Nat.le_max_right _ _
      · exact h.ahead a ha
    begun := h.begun
    ended := h.ended
    logged := h.logged
    numbered := fun a ha => by
      show a.number < t.arrived + es.length
      rcases List.mem_append.mp (hall.mem_iff.mp ha) with ha | ha
      · exact (Timeline.number_of_mem_arrivals ha).2
      · have := h.numbered a ha; omega
    distinct := by
      refine (hall.map _).nodup_iff.mpr ?_
      rw [List.map_append, List.nodup_append, Timeline.map_number_arrivals]
      refine ⟨List.nodup_range', h.distinct, fun n hn k hk hnk => ?_⟩
      obtain ⟨a, ha, rfl⟩ := List.mem_map.mp hk
      have := h.numbered a ha
      rw [List.mem_range'_1] at hn
      omega }

theorem clear (h : Follows seed p m t) :
    ∃ p', p.left <+: p'.left ∧ Follows seed p' m.clear { t with present := [] } := by
  refine ⟨{ p with waiting := [], playing := [], past := [] }, List.prefix_rfl, ?_⟩
  exact { h with
    queue := rfl
    sounding := rfl
    present := List.Perm.nil
    sorted := List.Pairwise.nil
    came := fun a ha => by cases ha
    ahead := fun a ha => by cases ha
    begun := fun q hq => by cases hq
    ended := fun a ha => by cases ha
    logged := fun q hq => by cases hq
    numbered := fun a ha => h.numbered a (List.mem_append_left _ (by simpa using ha))
    distinct := h.distinct.sublist (by simp) }

theorem setVolume (h : Follows seed p m t) (v : Float32) :
    Follows seed p (m.setVolume v) (t.perform (.setVolume v)) := by
  simp only [Mixer.setVolume, Timeline.perform]
  split
  · exact h
  · exact { h with volume := rfl }

/-- Every call keeps a mixer on its timeline, and each frame of it sounds as it should. -/
theorem perform (h : Follows seed p m t) (c : Call) :
    ∃ p', p.left <+: p'.left ∧ Follows seed p' (m.perform c) (t.perform c) ∧
      ∀ size, c = .fill size → ∀ seeds, Agrees seeds seed p'.left →
        ∀ i < framesIn m.channels size, (m.after i).sounds.Perm (t.heard seeds (t.frame + i)) := by
  cases c with
  | schedule cs =>
    have hr : max m.rate 1 = t.rate := by have := h.rate_pos; rw [h.rate]; omega
    have hb : (Batch.ofCommands cs m.rate).entries.Perm (cs.map (windowed t.rate)) := by
      rw [← hr]; exact Batch.perm_windowed cs m.rate
    obtain ⟨p', hp, hf⟩ := h.enqueue hb
    exact ⟨p', hp, hf, fun _ e => by cases e⟩
  | enqueue b =>
    obtain ⟨p', hp, hf⟩ := h.enqueue (List.reverse_perm b.entries).symm
    exact ⟨p', hp, hf, fun _ e => by cases e⟩
  | reserve tones => exact ⟨p, List.prefix_rfl, h, fun _ e => by cases e⟩
  | setVolume v => exact ⟨p, List.prefix_rfl, h.setVolume v, fun _ e => by cases e⟩
  | clear =>
    obtain ⟨p', hp, hf⟩ := h.clear
    exact ⟨p', hp, hf, fun _ e => by cases e⟩
  | fill size =>
    obtain ⟨p', hp, hf, hs⟩ := h.after (framesIn m.channels size)
    refine ⟨p', hp, ?_, fun size' e seeds ha i hi => ?_⟩
    · rw [h.channels] at hf
      simp only [Mixer.perform, Mixer.fill_snd, Timeline.perform, h.channels]; exact hf
    · cases e; exact hs seeds ha i hi

end Follows

theorem follows_start (rate channels : Nat) (seed : UInt64) :
    Follows seed ⟨[], [], [], []⟩ (.start rate channels seed) (.start rate channels) := by
  have hrate : 0 < max rate 1 := Nat.lt_of_lt_of_le Nat.zero_lt_one (Nat.le_max_right _ _)
  have hchannels : 0 < max channels 1 := Nat.lt_of_lt_of_le Nat.zero_lt_one (Nat.le_max_right _ _)
  constructor <;> first | exact hrate | exact hchannels | simp [Mixer.start, Timeline.start]

/-- A mixer follows its timeline through any calls, with one seed for each tone throughout. -/
theorem follows_performAll (rate channels : Nat) (seed : UInt64) (calls : List Call) :
    ∃ p, Follows seed p ((Mixer.start rate channels seed).performAll calls)
        ((Timeline.start rate channels).performAll calls) ∧
      ∀ seeds, Agrees seeds seed p.left → ∀ before size, before ++ [.fill size] <+: calls →
        ∀ i < framesIn (max channels 1) size,
          ((((Mixer.start rate channels seed).performAll before).after i).sounds).Perm
            (((Timeline.start rate channels).performAll before).heard seeds
              (((Timeline.start rate channels).performAll before).frame + i)) := by
  induction calls using List.reverseRecOn with
  | nil =>
    refine ⟨_, follows_start rate channels seed, fun seeds _ before size hb => ?_⟩
    simp at hb
  | append_singleton calls c ih =>
    obtain ⟨p, hf, hs⟩ := ih
    obtain ⟨p', hp, hf', hs'⟩ := hf.perform c
    rw [Mixer.performAll_concat, Timeline.performAll_concat]
    refine ⟨p', hf', fun seeds ha before size hb i hi => ?_⟩
    rcases List.prefix_concat_iff.mp hb with hb | hb
    · obtain ⟨rfl, hc⟩ := List.append_inj' hb rfl
      have hch : ((Mixer.start rate channels seed).performAll before).channels = max channels 1 :=
        hf.channels.trans (Timeline.performAll_format _ before).2
      refine hs' size (by simpa using hc.symm) seeds ha i ?_
      rwa [hch]
    · exact hs seeds (ha.of_prefix hp) before size hb i hi

end ScoreSynth.Output
