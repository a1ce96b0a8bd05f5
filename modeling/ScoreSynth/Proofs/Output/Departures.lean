import ScoreSynth.Proofs.Output.Desk
import ScoreSynth.Proofs.Output.Following

/-!
# Leaving the queue

In which order tones leave the queue, and with which seeds. The tones that wait stand in line: by
start, and of one start the latest come first. As none of them is overdue, the line is also in the
order of the frames at which they fall due, so each frame takes its tones from the head of the line,
whatever came in between. Seeds are counted by departures alone.
-/

namespace ScoreSynth.Output

open Sound (Voice)

structure Departure where
  frame : Nat
  entry : Entry
  sounding : Sounding

namespace Mixer

def departures (m : Mixer) : List Departure :=
  (m.due.zip (voices m.rate m.seed m.due)).map fun (e, s) => ⟨m.frame, e, s⟩

def departuresIn (m : Mixer) (frames : Nat) : List Departure :=
  (List.range frames).flatMap fun i => (m.after i).departures

def departuresOf (m : Mixer) : Call → List Departure
  | .fill size => m.departuresIn (framesIn m.channels size)
  | _ => []

def log (m : Mixer) : List Call → List Departure
  | [] => []
  | c :: calls => m.departuresOf c ++ (m.perform c).log calls

theorem length_voices (rate : Nat) (seed : UInt64) (es : List Entry) :
    (voices rate seed es).length = es.length := by
  induction es generalizing seed with
  | nil => rfl
  | cons e es ih => simp [voices, ih]

/-- Departures are what a frame moves from the queue to the voices. -/
theorem startDue_departures (m : Mixer) :
    m.queue = m.departures.map (·.entry) ++ m.startDue.queue ∧
      m.startDue.sounding = m.sounding ++ m.departures.map (·.sounding) ∧
      m.startDue.seed = m.seed + UInt64.ofNat m.departures.length := by
  have hlength := length_voices m.rate m.seed m.due
  have hentries : m.departures.map (·.entry) = m.due := by
    simp only [departures, List.map_map]
    exact List.map_fst_zip (Nat.le_of_eq hlength.symm)
  have hsounding : m.departures.map (·.sounding) = voices m.rate m.seed m.due := by
    simp only [departures, List.map_map]
    exact List.map_snd_zip (Nat.le_of_eq hlength)
  refine ⟨?_, ?_, ?_⟩
  · rw [hentries]
    exact List.takeWhile_append_dropWhile.symm
  · rw [hsounding]
    rfl
  · rw [← List.length_map (f := Departure.entry), hentries]
    rfl

end Mixer

/-! ## The order of a line -/

namespace Arrival

def NextUp (a b : Arrival) : Prop :=
  a.entry.start < b.entry.start ∨ a.entry.start = b.entry.start ∧ b.number < a.number

def LeavesBefore (a b : Arrival) : Prop := a.due < b.due ∨ a.due = b.due ∧ a.NextUp b

def fallsWithin (first last : Nat) (a : Arrival) : Bool := first ≤ a.due && a.due < last

def departure (rate : Nat) (p : Arrival × UInt64) : Departure :=
  ⟨p.1.due, p.1.entry, ⟨Voice.ofTone p.1.entry.tone rate p.2, p.1.entry.stop⟩⟩

theorem fallsWithin_iff {first last : Nat} {a : Arrival} :
    a.fallsWithin first last = true ↔ first ≤ a.due ∧ a.due < last := by
  simp [fallsWithin]

end Arrival

open Arrival (NextUp LeavesBefore fallsWithin)

theorem filter_fallsWithin_self (frame : Nat) (as : List Arrival) :
    as.filter (fallsWithin frame frame) = [] := by
  rw [List.filter_eq_nil_iff]
  intro a _ h
  rw [Arrival.fallsWithin_iff] at h
  omega

theorem zip_seeded {β : Type} (f : Arrival × UInt64 → β) (seed : UInt64) (as : List Arrival) :
    (as.map (·.entry)).zip ((seeded seed as).map f) =
      (seeded seed as).map fun q => (q.1.entry, f q) := by
  induction as generalizing seed with
  | nil => rfl
  | cons a as ih => simp [seeded, ih]

/-- Sorting brings arrivals in line if those of one start already stand latest first. -/
theorem nextUp_sortArrivals {as : List Arrival}
    (h : as.Pairwise fun a b => a.entry.start = b.entry.start → b.number < a.number) :
    (sortArrivals as).Pairwise NextUp := by
  rw [List.pairwise_iff_forall_sublist]
  intro a b hab
  have hle : a.entry.start ≤ b.entry.start :=
    List.pairwise_iff_forall_sublist.mp (sorted_sortArrivals as) hab
  rcases Nat.lt_or_eq_of_le hle with hlt | heq
  · exact .inl hlt
  · -- of one start, the two stand as they stood before
    have hclass : (sortArrivals as).filter (fun c => c.entry.start == b.entry.start) =
        as.filter fun c => c.entry.start == b.entry.start := by
      apply filter_mergeSort
      · exact fun a b c => notLater_trans a.entry b.entry c.entry
      · exact fun a b => notLater_total a.entry b.entry
      · intro a b ha hb
        simp only [beq_iff_eq] at ha hb
        simp [Entry.notLater, ha, hb]
    have hsub := hab.filter fun c => c.entry.start == b.entry.start
    rw [hclass] at hsub
    have hbefore : [a, b].Sublist as := by
      simp only [List.filter_cons, heq, beq_self_eq_true, if_true, List.filter_nil] at hsub
      exact hsub.trans List.filter_sublist
    exact .inr ⟨heq, List.pairwise_iff_forall_sublist.mp h hbefore heq⟩

/-! ## What is asked for -/

namespace Timeline

/-- The tones of a batch come in the order in which they are given. -/
def receive (t : Timeline) : Request → Timeline
  | .enqueue _ cs rate => t.arrive (cs.map (windowed (max rate 1)))
  | r => t.perform r.call

def receiveAll (t : Timeline) (requests : List Request) : Timeline := requests.foldl receive t

/-- The tones that fall due while the frames of requests are rendered, unless cleared before. -/
def falling (t : Timeline) : List Request → List Arrival
  | [] => []
  | r :: requests =>
    t.present.filter (fallsWithin t.frame (t.receive r).frame) ++ (t.receive r).falling requests

theorem receive_rate (t : Timeline) (r : Request) : (t.receive r).rate = t.rate := by
  cases r with
  | enqueue room cs rate => rfl
  | _ => exact (perform_format t _).1

theorem frame_le_receive (t : Timeline) (r : Request) : t.frame ≤ (t.receive r).frame := by
  cases r with
  | setVolume v => simp only [receive, Request.call, perform]; split <;> exact Nat.le_refl _
  | fill size => exact Nat.le_add_right _ _
  | _ => exact Nat.le_refl _

theorem frame_le_receiveAll (t : Timeline) (requests : List Request) :
    t.frame ≤ (t.receiveAll requests).frame := by
  induction requests generalizing t with
  | nil => exact Nat.le_refl _
  | cons r requests ih => exact Nat.le_trans (t.frame_le_receive r) (ih (t.receive r))

end Timeline

/-- A mixer whose queue is the line of the tones that are not yet due. -/
structure Lined (waiting : List Arrival) (m : Mixer) (t : Timeline) : Prop where
  rate : m.rate = t.rate
  rate_pos : 0 < t.rate
  channels : m.channels = t.channels
  frame : m.frame = t.frame
  queue : m.queue = waiting.map (·.entry)
  order : waiting.Pairwise NextUp
  waits : waiting.Perm (t.present.filter fun a => t.frame ≤ a.due)
  came : ∀ a ∈ t.present, a.frame ≤ t.frame ∧ a.number < t.arrived

structure Departs (rate : Nat) (seed seed' : UInt64) (first last : Nat) (log : List Departure)
    (left : List Arrival) : Prop where
  logged : log = (seeded seed left).map (Arrival.departure rate)
  counted : seed' = seed + UInt64.ofNat left.length
  order : left.Pairwise LeavesBefore
  window : ∀ a ∈ left, first ≤ a.due ∧ a.due < last

namespace Departs

theorem nil (rate : Nat) (seed : UInt64) (frame : Nat) : Departs rate seed seed frame frame [] [] where
  logged := rfl
  counted := by simp
  order := .nil
  window := fun a ha => by cases ha

theorem append {rate : Nat} {seed seed' seed'' : UInt64} {first mid last : Nat}
    {log log' : List Departure} {left left' : List Arrival}
    (h : Departs rate seed seed' first mid log left)
    (h' : Departs rate seed' seed'' mid last log' left') (hfirst : first ≤ mid) (hlast : mid ≤ last) :
    Departs rate seed seed'' first last (log ++ log') (left ++ left') where
  logged := by
    rw [seeded_append, List.map_append, ← h.counted, ← h.logged, ← h'.logged]
  counted := by
    rw [h'.counted, h.counted, List.length_append, UInt64.ofNat_add, UInt64.add_assoc]
  order := by
    refine List.pairwise_append.mpr ⟨h.order, h'.order, fun a ha b hb => .inl ?_⟩
    exact Nat.lt_of_lt_of_le (h.window a ha).2 (h'.window b hb).1
  window := by
    intro a ha
    rcases List.mem_append.mp ha with ha | ha
    · have := h.window a ha; omega
    · have := h'.window a ha; omega

end Departs

namespace Lined

variable {waiting : List Arrival} {m : Mixer} {t : Timeline}

theorem mem_iff (h : Lined waiting m t) {a : Arrival} :
    a ∈ waiting ↔ a ∈ t.present ∧ t.frame ≤ a.due := by
  rw [h.waits.mem_iff, List.mem_filter, decide_eq_true_eq]

/-- No tone that waits is overdue. -/
theorem due_eq (h : Lined waiting m t) {a : Arrival} (ha : a ∈ waiting) :
    a.due = max a.entry.start t.frame := by
  obtain ⟨hpresent, hdue⟩ := h.mem_iff.mp ha
  have hcame := (h.came a hpresent).1
  unfold Arrival.due at *; omega

theorem leaves (h : Lined waiting m t) : waiting.Pairwise LeavesBefore := by
  refine h.order.imp_of_mem ?_
  intro a b ha hb hab
  unfold LeavesBefore
  rw [h.due_eq ha, h.due_eq hb]
  rcases hab with hlt | ⟨heq, hnumber⟩
  · by_cases hdue : max a.entry.start t.frame = max b.entry.start t.frame
    · exact .inr ⟨hdue, .inl hlt⟩
    · left; omega
  · exact .inr ⟨by rw [heq], .inr ⟨heq, hnumber⟩⟩

/-- Where a line is cut, the tones that are present are cut too. -/
theorem cut (h : Lined waiting m t) {left later : List Arrival} (hw : waiting = left ++ later)
    {frame : Nat} (hframe : t.frame ≤ frame) (hleft : ∀ a ∈ left, a.due < frame)
    (hlater : ∀ a ∈ later, frame ≤ a.due) :
    left.Perm (t.present.filter (fallsWithin t.frame frame)) ∧
      later.Perm (t.present.filter fun a => frame ≤ a.due) := by
  have hbefore : waiting.filter (fun a => a.due < frame) = left := by
    rw [hw, List.filter_append, List.filter_eq_self.mpr (by simpa using hleft),
      List.filter_eq_nil_iff.mpr (by simpa using hlater), List.append_nil]
  have hafter : waiting.filter (fun a => frame ≤ a.due) = later := by
    rw [hw, List.filter_append, List.filter_eq_nil_iff.mpr (by simpa using hleft),
      List.filter_eq_self.mpr (by simpa using hlater), List.nil_append]
  constructor
  · rw [← hbefore]
    refine (h.waits.filter _).trans (.of_eq ?_)
    rw [List.filter_filter]
    apply List.filter_congr
    intro a _
    simp [fallsWithin, Bool.and_comm]
  · rw [← hafter]
    refine (h.waits.filter _).trans (.of_eq ?_)
    rw [List.filter_filter]
    apply List.filter_congr
    intro a _
    by_cases hdue : frame ≤ a.due
    · simp [hdue, Nat.le_trans hframe hdue]
    · simp [hdue]

/-! ## Frames -/

theorem due_eq_frame (h : Lined waiting m t) {a : Arrival}
    (ha : a ∈ waiting.takeWhile fun a => a.entry.start ≤ t.frame) : a.due = t.frame := by
  have hstart : a.entry.start ≤ t.frame := by simpa using List.mem_takeWhile_imp ha
  rw [h.due_eq ((List.takeWhile_sublist _).mem ha)]
  omega

theorem lt_due (h : Lined waiting m t) {a : Arrival}
    (ha : a ∈ waiting.dropWhile fun a => a.entry.start ≤ t.frame) : t.frame < a.due := by
  have hsorted : waiting.Pairwise fun a b => a.entry.start ≤ b.entry.start := by
    refine h.order.imp ?_
    intro a b hab
    rcases hab with hlt | ⟨heq, _⟩ <;> omega
  have hstart := lt_start_of_mem_dropWhile hsorted a ha
  exact Nat.lt_of_lt_of_le hstart a.start_le_due

theorem due_queue (h : Lined waiting m t) :
    m.due = (waiting.takeWhile fun a => a.entry.start ≤ t.frame).map (·.entry) := by
  rw [Mixer.due, h.queue, List.takeWhile_map, h.frame]
  rfl

theorem departures_eq (h : Lined waiting m t) :
    m.departures = (seeded m.seed (waiting.takeWhile fun a => a.entry.start ≤ t.frame)).map
      (Arrival.departure t.rate) := by
  have hdue : ∀ a ∈ waiting.takeWhile fun a => a.entry.start ≤ t.frame, a.due = t.frame :=
    fun a ha => h.due_eq_frame ha
  rw [Mixer.departures, h.due_queue, h.rate, h.frame, voices_map_entry t.rate t.frame m.seed _ hdue,
    zip_seeded, List.map_map]
  apply List.map_congr_left
  intro q hq
  have hq := hdue q.1 (fst_mem_of_mem_seeded hq)
  simp [Arrival.departure, Arrival.sounding, Arrival.voiceAt, hq, Voice.after]

theorem next (h : Lined waiting m t) :
    Lined (waiting.dropWhile fun a => a.entry.start ≤ t.frame) m.next.2
      { t with frame := t.frame + 1 } where
  rate := h.rate
  rate_pos := h.rate_pos
  channels := h.channels
  frame := congrArg (· + 1) h.frame
  queue := by
    show m.queue.dropWhile _ = _
    rw [h.queue, List.dropWhile_map, h.frame]
    rfl
  order := h.order.sublist (List.dropWhile_sublist _)
  waits := by
    refine (h.cut List.takeWhile_append_dropWhile.symm (Nat.le_succ _) ?_ ?_).2
    · intro a ha
      rw [h.due_eq_frame ha]
      exact Nat.lt_succ_self _
    · exact fun a ha => h.lt_due ha
  came := fun a ha => ⟨Nat.le_succ_of_le (h.came a ha).1, (h.came a ha).2⟩

theorem departs_next (h : Lined waiting m t) :
    Departs t.rate m.seed m.next.2.seed t.frame (t.frame + 1) m.departures
      (waiting.takeWhile fun a => a.entry.start ≤ t.frame) where
  logged := h.departures_eq
  counted := by
    show m.seed + UInt64.ofNat m.due.length = _
    rw [h.due_queue, List.length_map]
  order := h.leaves.sublist (List.takeWhile_sublist _)
  window := by
    intro a ha
    rw [h.due_eq_frame ha]
    omega

theorem after (h : Lined waiting m t) (n : Nat) :
    ∃ left later, waiting = left ++ later ∧
      Lined later (m.after n) { t with frame := t.frame + n } ∧
      Departs t.rate m.seed (m.after n).seed t.frame (t.frame + n) (m.departuresIn n) left := by
  induction n with
  | zero => exact ⟨[], waiting, rfl, h, .nil _ _ _⟩
  | succ n ih =>
    obtain ⟨left, later, hw, hlined, hdeparts⟩ := ih
    have hlog : m.departuresIn (n + 1) = m.departuresIn n ++ (m.after n).departures := by
      simp [Mixer.departuresIn, List.range_succ]
    refine ⟨left ++ later.takeWhile fun a => a.entry.start ≤ t.frame + n,
      later.dropWhile fun a => a.entry.start ≤ t.frame + n, ?_, ?_, ?_⟩
    · rw [List.append_assoc, List.takeWhile_append_dropWhile, hw]
    · rw [Mixer.after_succ']
      exact hlined.next
    · rw [hlog, Mixer.after_succ']
      exact hdeparts.append hlined.departs_next (Nat.le_add_right _ _) (Nat.le_succ _)

/-! ## Requests -/

theorem arrive (h : Lined waiting m t) {b : Batch} {es : List Entry}
    (hb : b.entries = sortByStart es.reverse) :
    Lined (sortArrivals ((t.arrivals es).reverse ++ waiting)) (m.enqueue b) (t.arrive es) where
  rate := h.rate
  rate_pos := h.rate_pos
  channels := h.channels
  frame := h.frame
  queue := by
    show sortByStart (b.entries ++ m.queue) = _
    rw [hb, h.queue, sortByStart_sortByStart_append, map_entry_sortArrivals, List.map_append,
      List.map_reverse, Timeline.map_entry_arrivals]
  order := by
    apply nextUp_sortArrivals
    refine List.pairwise_append.mpr ⟨?_, ?_, ?_⟩
    · have hnumbers : (t.arrivals es).Pairwise fun a b => a.number < b.number := by
        rw [← List.pairwise_map (f := Arrival.number) (R := (· < ·)), Timeline.map_number_arrivals]
        exact List.pairwise_lt_range'
      rw [List.pairwise_reverse]
      refine hnumbers.imp ?_
      intro a b hlt _
      exact hlt
    · refine h.order.imp ?_
      intro a b hab heq
      rcases hab with hlt | ⟨_, hnumber⟩
      · omega
      · exact hnumber
    · -- the new tones are numbered after all that came before
      intro a ha b hb _
      have hnew := Timeline.number_of_mem_arrivals (List.mem_reverse.mp ha)
      have hold := (h.came b (h.mem_iff.mp hb).1).2
      omega
  waits := by
    have hdue : (t.arrivals es).filter (fun a => t.frame ≤ a.due) = t.arrivals es := by
      apply List.filter_eq_self.mpr
      intro a ha
      rw [← Timeline.frame_of_mem_arrivals ha, decide_eq_true_eq]
      exact Nat.le_max_right _ _
    show (sortArrivals _).Perm ((t.present ++ t.arrivals es).filter fun a => t.frame ≤ a.due)
    rw [List.filter_append, hdue]
    refine (sortArrivals_perm _).trans (List.perm_append_comm.trans ?_)
    exact h.waits.append (List.reverse_perm _)
  came := by
    intro a ha
    rcases List.mem_append.mp ha with ha | ha
    · have := h.came a ha
      exact ⟨this.1, Nat.lt_add_right _ this.2⟩
    · have hframe : a.frame = t.frame := Timeline.frame_of_mem_arrivals ha
      exact ⟨Nat.le_of_eq hframe, (Timeline.number_of_mem_arrivals ha).2⟩

theorem clear (h : Lined waiting m t) : Lined [] m.clear { t with present := [] } :=
  { h with queue := rfl, order := .nil, waits := .nil, came := fun a ha => by cases ha }

theorem setVolume (h : Lined waiting m t) (v : Float32) :
    Lined waiting (m.setVolume v) (t.perform (.setVolume v)) := by
  simp only [Mixer.setVolume, Timeline.perform]
  split
  · exact h
  · exact { h with }

theorem receive (h : Lined waiting m t) (r : Request) :
    ∃ left later, Lined later (m.perform r.call) (t.receive r) ∧
      Departs t.rate m.seed (m.perform r.call).seed t.frame (t.receive r).frame
        (m.departuresOf r.call) left ∧
      left.Perm (t.present.filter (fallsWithin t.frame (t.receive r).frame)) := by
  have hnone : ([] : List Arrival).Perm (t.present.filter (fallsWithin t.frame t.frame)) := by
    rw [filter_fallsWithin_self]
  cases r with
  | schedule room cs =>
    have hrate : max m.rate 1 = t.rate := by have := h.rate_pos; rw [h.rate]; omega
    have hb : (Batch.ofCommands cs m.rate).entries =
        sortByStart (cs.map (windowed t.rate)).reverse := by
      rw [← hrate, windowed_eq]; rfl
    exact ⟨[], _, h.arrive hb, .nil _ _ _, hnone⟩
  | enqueue room cs rate => exact ⟨[], _, h.arrive rfl, .nil _ _ _, hnone⟩
  | reserve tones => exact ⟨[], _, h, .nil _ _ _, hnone⟩
  | setVolume v =>
    refine ⟨[], waiting, h.setVolume v, ?_⟩
    simp only [Timeline.receive, Request.call, Timeline.perform, Mixer.perform, Mixer.setVolume]
    split <;> exact ⟨.nil _ _ _, hnone⟩
  | clear => exact ⟨[], [], h.clear, .nil _ _ _, hnone⟩
  | fill size =>
    obtain ⟨left, later, hw, hlined, hdeparts⟩ := h.after (framesIn t.channels size)
    refine ⟨left, later, ?_, ?_, ?_⟩
    · show Lined later (m.fill size).2 _
      rw [Mixer.fill_snd, h.channels]
      exact hlined
    · show Departs _ _ (m.fill size).2.seed _ _ (m.departuresIn (framesIn m.channels size)) _
      rw [Mixer.fill_snd, h.channels]
      exact hdeparts
    · refine (h.cut hw (Nat.le_add_right _ _) ?_ ?_).1
      · exact fun a ha => (hdeparts.window a ha).2
      · exact fun a ha => (hlined.mem_iff.mp ha).2

/-- What leaves while requests are carried out is what falls due. -/
theorem receiveAll (h : Lined waiting m t) (requests : List Request) :
    ∃ left, Departs t.rate m.seed (m.performAll (requests.map Request.call)).seed t.frame
        (t.receiveAll requests).frame (m.log (requests.map Request.call)) left ∧
      left.Perm (t.falling requests) := by
  induction requests generalizing waiting m t with
  | nil => exact ⟨[], .nil _ _ _, .nil⟩
  | cons r requests ih =>
    obtain ⟨left, later, hlined, hdeparts, hfalling⟩ := h.receive r
    obtain ⟨left', hdeparts', hfalling'⟩ := ih hlined
    rw [Timeline.receive_rate] at hdeparts'
    refine ⟨left ++ left', ?_, hfalling.append hfalling'⟩
    exact hdeparts.append hdeparts' (t.frame_le_receive r) (Timeline.frame_le_receiveAll _ requests)

end Lined

theorem lined_start (rate channels : Nat) (seed : UInt64) :
    Lined [] (.start rate channels seed) (.start rate channels) where
  rate := rfl
  rate_pos := Nat.lt_of_lt_of_le Nat.zero_lt_one (Nat.le_max_right _ _)
  channels := rfl
  frame := rfl
  queue := rfl
  order := .nil
  waits := .nil
  came := fun a ha => by cases ha

theorem add_ofNat (seed : UInt64) (k : Nat) : seed + UInt64.ofNat k = UInt64.ofNat (seed.toNat + k) := by
  rw [UInt64.ofNat_add, UInt64.ofNat_toNat]

theorem seeded_eq_zipIdx (seed : UInt64) (n : Nat) (as : List Arrival) :
    seeded (seed + UInt64.ofNat n) as =
      (as.zipIdx (n + 1)).map fun (a, k) => (a, UInt64.ofNat (seed.toNat + k)) := by
  induction as generalizing n with
  | nil => rfl
  | cons a as ih =>
    have hseed : seed + UInt64.ofNat n + 1 = seed + UInt64.ofNat (n + 1) := by
      rw [UInt64.ofNat_add, UInt64.ofNat_one, UInt64.add_assoc]
    rw [seeded, List.zipIdx_cons, List.map_cons, hseed, ih, add_ofNat]

/--
Whatever is asked of a new mixer, the tones that leave its queue are those that fall due before they
are cleared: in the order of these frames, in one frame by start, and of one start the latest first.
The `k`-th of them has the voice of the seed that lies `k` after the first, be its stop past or not.
What leaves in a frame is what that frame takes from the head of the queue and gives voices to.
-/
theorem tones_leave_in_order (rate channels : Nat) (seed : UInt64) (requests : List Request) :
    let m := Mixer.start rate channels seed
    let calls := requests.map Request.call
    (∃ left : List Arrival,
      left.Perm ((Timeline.start rate channels).falling requests) ∧
      left.Pairwise LeavesBefore ∧
      m.log calls = (left.zipIdx 1).map (fun (a, k) =>
        ⟨a.due, a.entry, Voice.ofTone a.entry.tone (max rate 1) (UInt64.ofNat (seed.toNat + k)),
          a.entry.stop⟩) ∧
      (m.performAll calls).seed = UInt64.ofNat (seed.toNat + left.length) ∧
      ((Desk.start rate channels seed).performAll requests).Mirrors (m.performAll calls)) ∧
      ∀ now : Mixer, now.queue = now.departures.map (·.entry) ++ now.startDue.queue ∧
        now.startDue.sounding = now.sounding ++ now.departures.map (·.sounding) ∧
        now.startDue.seed = now.seed + UInt64.ofNat now.departures.length := by
  intro m calls
  obtain ⟨left, hdeparts, hfalling⟩ := (lined_start rate channels seed).receiveAll requests
  refine ⟨⟨left, hfalling, hdeparts.order, ?_, ?_, Desk.mirrors_performAll _ _ _ requests⟩,
    Mixer.startDue_departures⟩
  · have hseeded := seeded_eq_zipIdx seed 0 left
    rw [show seed + UInt64.ofNat 0 = seed by simp] at hseeded
    have hlogged : m.log calls = (seeded seed left).map (Arrival.departure (max rate 1)) :=
      hdeparts.logged
    rw [hlogged, hseeded, List.map_map]
    rfl
  · have hcounted : (m.performAll calls).seed = seed + UInt64.ofNat left.length := hdeparts.counted
    rw [hcounted, add_ofNat]

end ScoreSynth.Output
