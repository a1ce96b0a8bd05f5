import ScoreSynth.Proofs.Output.Ending
import ScoreSynth.Proofs.Session.Silence

/-!
# What is left to render

A mixer may hold tones whose time is over: a voice goes only with the next frame, and a tone without
length waits in the queue like any other. Even so its end moves with new tones and with the clock
alone, so a renderer always knows how much of what it was given is still to come, and once that is
rendered there is nothing but silence.
-/

namespace ScoreSynth.Output

namespace Mixer

variable {m : Mixer}

theorem endFrame_le_iff {k : Nat} : m.endFrame ≤ k ↔ m.frame ≤ k ∧ ∀ n ∈ m.stops, n ≤ k :=
  foldl_max_le_iff

theorem map_stop_voices (rate : Nat) (seed : UInt64) (es : List Entry) :
    (voices rate seed es).map (·.stop) = es.map (·.stop) := by
  induction es generalizing seed with
  | nil => rfl
  | cons e es ih => rw [voices, List.map_cons, List.map_cons, ih]

/-! ## The next frame -/

/-- The stops of all that has a voice once the tones that are due have left the queue. -/
theorem map_stop_startDue (m : Mixer) :
    m.startDue.sounding.map (·.stop) = m.sounding.map (·.stop) ++ m.due.map (·.stop) := by
  rw [← map_stop_voices m.rate m.seed, ← List.map_append]
  rfl

theorem stops_next (m : Mixer) : m.next.2.stops =
    m.startDue.queue.map (·.stop) ++
      (m.sounding.map (·.stop) ++ m.due.map (·.stop)).filter fun stop => m.frame < stop := by
  have hkept : m.next.2.sounding.map (·.stop) =
      (m.startDue.sounding.filter fun s => m.frame < s.stop).map (·.stop) := by
    simp only [next, mix, List.map_map]
    rfl
  rw [← map_stop_startDue, List.filter_map]
  exact congrArg _ hkept

/-- Only stops that have passed are forgotten. -/
theorem mem_stops_next {n : Nat} :
    (n ∈ m.next.2.stops → n ∈ m.stops) ∧ (n ∈ m.stops → n ∈ m.next.2.stops ∨ n ≤ m.frame) := by
  have hqueue : m.queue.map (·.stop) = m.due.map (·.stop) ++ m.startDue.queue.map (·.stop) := by
    rw [← List.map_append]
    exact congrArg (List.map _) List.takeWhile_append_dropWhile.symm
  rw [stops_next, stops, hqueue]
  simp only [List.mem_append, List.mem_filter, decide_eq_true_eq]
  constructor
  · rintro (h | ⟨h | h, -⟩)
    · exact .inl (.inr h)
    · exact .inr h
    · exact .inl (.inl h)
  · by_cases hn : m.frame < n
    · rintro ((h | h) | h)
      · exact .inl (.inr ⟨.inr h, hn⟩)
      · exact .inl (.inl h)
      · exact .inl (.inr ⟨.inl h, hn⟩)
    · exact fun _ => .inr (Nat.le_of_not_lt hn)

theorem endFrame_next (m : Mixer) : m.next.2.endFrame = max m.endFrame (m.frame + 1) := by
  refine eq_of_forall_ge_iff fun k => ?_
  rw [endFrame_le_iff, Nat.max_le, endFrame_le_iff, next_frame]
  constructor
  · rintro ⟨hframe, hstops⟩
    refine ⟨⟨by omega, fun n hn => ?_⟩, hframe⟩
    rcases mem_stops_next.2 hn with hn | hn
    · exact hstops n hn
    · omega
  · rintro ⟨⟨-, hstops⟩, hframe⟩
    exact ⟨hframe, fun n hn => hstops n (mem_stops_next.1 hn)⟩

/-- Rendering moves the end of a mixer only where the clock passes it. -/
theorem endFrame_after (n : Nat) (m : Mixer) :
    (m.after n).endFrame = max m.endFrame (m.frame + n) := by
  induction n generalizing m with
  | zero =>
    obtain ⟨hframe, -⟩ := endFrame_le_iff.mp (le_refl m.endFrame)
    rw [after_zero, Nat.add_zero, max_eq_left hframe]
  | succ n ih => rw [after_succ, ih, endFrame_next, next_frame, max_assoc]; congr 1; omega

/-! ## After the last stop -/

/-- All tones have stopped, also those that are still held. -/
def Settled (m : Mixer) : Prop := m.endFrame = m.frame

theorem Settled.after (h : m.Settled) (n : Nat) : (m.after n).Settled := by
  unfold Settled at *
  rw [endFrame_after, after_frame, h]
  omega

theorem Settled.sounds_eq (h : m.Settled) : m.sounds = [] := by
  have hstop : ∀ n ∈ m.stops, n ≤ m.frame := (endFrame_le_iff.mp (Nat.le_of_eq h)).2
  have hkept : m.startDue.dropStopped.sounding = [] := by
    show m.startDue.sounding.filter (fun s => m.frame < s.stop) = []
    rw [List.filter_eq_nil_iff]
    intro s hs
    have hmem : s.stop ∈ m.startDue.sounding.map (·.stop) := List.mem_map_of_mem hs
    rw [map_stop_startDue, List.mem_append] at hmem
    have hle : s.stop ≤ m.frame := by
      refine hstop _ (List.mem_append.mpr ?_)
      rcases hmem with hmem | hmem
      · exact .inr hmem
      · obtain ⟨e, he, heq⟩ := List.mem_map.mp hmem
        exact .inl (List.mem_map.mpr ⟨e, (List.takeWhile_sublist _).subset he, heq⟩)
    simpa using hle
  rw [sounds, hkept]
  rfl

/-- The end comes with the latest stop of the new tones, unless it comes later anyway. -/
theorem endFrame_schedule_le_iff (hrate : 0 < m.rate) {cs : List (Command Float)} {k : Nat} :
    (m.schedule cs).endFrame ≤ k ↔
      m.endFrame ≤ k ∧ ∀ c ∈ cs, (Entry.ofCommand m.rate c).stop ≤ k := by
  have hframe : (m.schedule cs).frame = m.frame := rfl
  rw [endFrame_le_iff, endFrame_le_iff, hframe]
  constructor
  · rintro ⟨hf, hs⟩
    refine ⟨⟨hf, fun n hn => hs n ((mem_stops_schedule hrate).mpr (.inl hn))⟩, fun c hc => ?_⟩
    exact hs _ ((mem_stops_schedule hrate).mpr (.inr ⟨c, hc, rfl⟩))
  · rintro ⟨⟨hf, hs⟩, hc⟩
    refine ⟨hf, fun n hn => ?_⟩
    rcases (mem_stops_schedule hrate).mp hn with hn | ⟨c, hmem, rfl⟩
    · exact hs n hn
    · exact hc c hmem

/-- The volume has no say in when anything stops. -/
theorem setVolume_keeps (m : Mixer) (v : Float32) : (m.setVolume v).rate = m.rate ∧
    (m.setVolume v).frame = m.frame ∧ (m.setVolume v).endFrame = m.endFrame := by
  unfold setVolume
  split
  · exact ⟨rfl, rfl, rfl⟩
  · exact ⟨rfl, rfl, rfl⟩

end Mixer

namespace Offline

/-! ## What was asked of a renderer -/

namespace Direct

def tones : Direct → List (Command Float)
  | submit cs => cs
  | _ => []

def isSubmit : Direct → Bool
  | submit _ => true
  | _ => false

def isClose : Direct → Bool
  | close => true
  | _ => false

end Direct

def performAll (o : Offline) : List Direct → List Float32 × Offline
  | [] => ([], o)
  | d :: ds =>
    let (samples, o) := o.perform d
    let (more, o) := o.performAll ds
    (samples.toList ++ more, o)

theorem performAll_cons (o : Offline) (d : Direct) (ds : List Direct) :
    o.performAll (d :: ds) = ((o.perform d).1.toList ++ ((happen d o).performAll ds).1,
      ((happen d o).performAll ds).2) := rfl

section
variable {o : Offline}

theorem submit_of_closed (h : o.closed = true) (cs : List (Command Float)) :
    o.submit cs = .error .closed ∧ happen (.submit cs) o = o := by
  have hs : o.submit cs = .error .closed := if_pos h
  refine ⟨hs, ?_⟩
  show (Backend.shared.submit () cs o).2 = o
  simp only [Backend.shared, hs]

theorem setVolume_of_closed (h : o.closed = true) (v : Float32) :
    o.setVolume v = .error .closed ∧ happen (.setVolume v) o = o := by
  have hs : o.setVolume v = .error .closed := if_pos h
  refine ⟨hs, ?_⟩
  show (Backend.shared.setVolume () v o).2 = o
  simp only [Backend.shared, hs]

theorem happen_submit (h : o.closed = false) (cs : List (Command Float)) : happen (.submit cs) o =
    { o with submitted := o.submitted ++ cs, mixer := o.mixer.schedule cs } := by
  have hs : o.submit cs = .ok _ := if_neg (by simp [h])
  show (Backend.shared.submit () cs o).2 = _
  simp only [Backend.shared, hs]

/-- A volume changes neither the clock nor the end, whether it is taken or not. -/
theorem happen_setVolume_keeps (o : Offline) (v : Float32) :
    (happen (.setVolume v) o).mixer.rate = o.mixer.rate ∧
      (happen (.setVolume v) o).closed = o.closed ∧
      (happen (.setVolume v) o).mixer.frame = o.mixer.frame ∧
      (happen (.setVolume v) o).mixer.endFrame = o.mixer.endFrame := by
  by_cases hc : o.closed = true
  · rw [(setVolume_of_closed hc v).2]
    exact ⟨rfl, rfl, rfl, rfl⟩
  · have hs : o.setVolume v = .ok { o with mixer := o.mixer.setVolume v } := if_neg hc
    have hset : happen (.setVolume v) o = { o with mixer := o.mixer.setVolume v } := by
      show (Backend.shared.setVolume () v o).2 = _
      simp only [Backend.shared, hs]
    obtain ⟨hrate, hframe, hend⟩ := o.mixer.setVolume_keeps v
    rw [hset]
    exact ⟨hrate, rfl, hframe, hend⟩

theorem renderFrames_snd (hc : 0 < o.mixer.channels) (n : Nat) :
    (o.renderFrames n).2 = { o with mixer := o.mixer.after n } := by
  show { o with mixer := (o.mixer.fill (n * o.mixer.channels)).2 } = _
  rw [Mixer.fill_snd, framesIn_mul hc]

theorem size_renderFrames (o : Offline) (n : Nat) :
    (o.renderFrames n).1.size = n * o.mixer.channels := Mixer.size_fill _ _

end

/-! ## The end of a run -/

def stopAt (rate : Nat) (c : Command Float) : Nat :=
  max (frameAt c.stop (max rate 1)) (frameAt c.start (max rate 1))

theorem stop_ofCommand (rate : Nat) (c : Command Float) :
    (Entry.ofCommand (max rate 1) c).stop = stopAt rate c := rfl

def lastOf (rate frame : Nat) (cs : List (Command Float)) : Nat :=
  (cs.map (stopAt rate)).foldl max frame

theorem lastOf_le_iff {rate frame k : Nat} {cs : List (Command Float)} :
    lastOf rate frame cs ≤ k ↔ frame ≤ k ∧ ∀ c ∈ cs, stopAt rate c ≤ k := by
  unfold lastOf
  rw [foldl_max_le_iff, List.forall_mem_map]

theorem lastOf_add (rate frame n : Nat) (cs : List (Command Float)) :
    lastOf rate (frame + n) cs = max (lastOf rate frame cs) (frame + n) := by
  refine eq_of_forall_ge_iff fun k => ?_
  rw [Nat.max_le, lastOf_le_iff, lastOf_le_iff]
  constructor
  · rintro ⟨hframe, hall⟩
    exact ⟨⟨by omega, hall⟩, hframe⟩
  · rintro ⟨⟨-, hall⟩, hframe⟩
    exact ⟨hframe, hall⟩

/--
Where a renderer stands after a run. It is closed if there was a closing; the end is then where the
clock is, and otherwise at the latest stop of all tones, unless the clock has passed it.
-/
structure StandsAfter (rate channels : Nat) (ds : List Direct) (o : Offline) : Prop
    extends WellFormed channels o where
  rate_eq : o.mixer.rate = max rate 1
  closed_eq : o.closed = ds.any Direct.isClose
  endFrame_eq : o.mixer.endFrame = if ds.any Direct.isClose then o.mixer.frame
    else lastOf rate o.mixer.frame (ds.flatMap Direct.tones)

theorem standsAfter_start (rate channels : Nat) (seed : UInt64) :
    StandsAfter rate channels [] (start rate channels seed) where
  toWellFormed := wellFormed_start rate channels seed
  rate_eq := rfl
  closed_eq := rfl
  endFrame_eq := rfl

namespace StandsAfter

variable {rate channels : Nat} {ds : List Direct} {o : Offline}

/-- Only the clock can move the end, if there are no tones and no closing. -/
theorem without_tones (h : StandsAfter rate channels ds o) {d : Direct} (hclose : d.isClose = false)
    (htones : d.tones = []) {o' : Offline} (n : Nat) (hwell : WellFormed channels o')
    (hrate : o'.mixer.rate = o.mixer.rate) (hclosed : o'.closed = o.closed)
    (hframe : o'.mixer.frame = o.mixer.frame + n)
    (hend : o'.mixer.endFrame = max o.mixer.endFrame (o.mixer.frame + n)) :
    StandsAfter rate channels (ds ++ [d]) o' where
  toWellFormed := hwell
  rate_eq := hrate.trans h.rate_eq
  closed_eq := by
    rw [hclosed, h.closed_eq, List.any_append]
    simp [hclose]
  endFrame_eq := by
    simp only [List.any_append, List.any_cons, hclose, List.any_nil, Bool.or_false,
      List.flatMap_append, List.flatMap_cons, htones, List.flatMap_nil, List.append_nil]
    rw [hend, hframe, h.endFrame_eq, lastOf_add]
    split
    · omega
    · rfl

theorem renderFrames (h : StandsAfter rate channels ds o) (n : Nat) {d : Direct}
    (hclose : d.isClose = false) (htones : d.tones = []) :
    StandsAfter rate channels (ds ++ [d]) (o.renderFrames n).2 := by
  have hsnd := renderFrames_snd h.channels_pos n
  refine h.without_tones hclose htones n (h.toWellFormed.renderFrames n) ?_ rfl ?_ ?_
  · rw [hsnd]
    exact Mixer.after_rate n o.mixer
  · rw [hsnd]
    exact Mixer.after_frame n o.mixer
  · rw [hsnd]
    exact Mixer.endFrame_after n o.mixer

theorem setVolume (h : StandsAfter rate channels ds o) (v : Float32) :
    StandsAfter rate channels (ds ++ [.setVolume v]) (Offline.happen (.setVolume v) o) := by
  obtain ⟨hrate, hclosed, hframe, hend⟩ := o.happen_setVolume_keeps v
  obtain ⟨hle, -⟩ := Mixer.endFrame_le_iff.mp (le_refl o.mixer.endFrame)
  refine h.without_tones rfl rfl 0 (h.toWellFormed.setVolume v) hrate hclosed hframe ?_
  rw [hend, Nat.add_zero, max_eq_left hle]

theorem submit (h : StandsAfter rate channels ds o) (cs : List (Command Float)) :
    StandsAfter rate channels (ds ++ [.submit cs]) (Offline.happen (.submit cs) o) := by
  have hany : (ds ++ [Direct.submit cs]).any Direct.isClose = ds.any Direct.isClose := by
    simp [Direct.isClose]
  by_cases hc : o.closed = true
  · -- a closed renderer takes no tones, and none count
    have hclosed : ds.any Direct.isClose = true := h.closed_eq ▸ hc
    rw [(submit_of_closed hc cs).2]
    refine ⟨h.toWellFormed, h.rate_eq, hany ▸ h.closed_eq, ?_⟩
    rw [h.endFrame_eq, hany, if_pos hclosed, if_pos hclosed]
  · rw [Bool.not_eq_true] at hc
    have hopen : ds.any Direct.isClose = false := h.closed_eq ▸ hc
    have hrate : 0 < o.mixer.rate := by
      rw [h.rate_eq]
      omega
    have hend := h.endFrame_eq
    rw [hopen] at hend
    rw [happen_submit hc]
    refine ⟨⟨h.channels_eq, h.volume⟩, h.rate_eq, hany ▸ h.closed_eq, ?_⟩
    rw [hany, hopen]
    refine eq_of_forall_ge_iff fun k => ?_
    show (o.mixer.schedule cs).endFrame ≤ k ↔ lastOf rate o.mixer.frame _ ≤ k
    simp only [Mixer.endFrame_schedule_le_iff hrate, hend, h.rate_eq, stop_ofCommand,
      List.flatMap_append, List.flatMap_singleton]
    show lastOf rate o.mixer.frame (ds.flatMap Direct.tones) ≤ k ∧ _ ↔ _
    rw [lastOf_le_iff, lastOf_le_iff, and_assoc, ← List.forall_mem_append]
    rfl

theorem close (h : StandsAfter rate channels ds o) :
    StandsAfter rate channels (ds ++ [.close]) o.close where
  toWellFormed := h.toWellFormed.close.toWellFormed
  rate_eq := h.rate_eq
  closed_eq := by simp [Offline.close, Direct.isClose]
  endFrame_eq := by
    rw [if_pos (by simp [Direct.isClose])]
    rfl

theorem happen (h : StandsAfter rate channels ds o) (d : Direct) :
    StandsAfter rate channels (ds ++ [d]) (Offline.happen d o) := by
  cases d with
  | render => exact h.renderFrames _ rfl rfl
  | renderFrames n => exact h.renderFrames n rfl rfl
  | submit cs => exact h.submit cs
  | setVolume v => exact h.setVolume v
  | close => exact h.close

theorem performAll (h : StandsAfter rate channels ds o) (later : List Direct) :
    StandsAfter rate channels (ds ++ later) (o.performAll later).2 := by
  induction later generalizing ds o with
  | nil => simpa [Offline.performAll] using h
  | cons d later ih =>
    rw [performAll_cons, List.append_cons ds d later]
    exact ih (h.happen d)

/-- After all is rendered that remains, the clock stands at the end. -/
theorem render_settled (h : StandsAfter rate channels ds o) : o.render.2.mixer.Settled ∧
    o.render.2.mixer.frame = o.mixer.endFrame := by
  obtain ⟨hle, -⟩ := Mixer.endFrame_le_iff.mp (le_refl o.mixer.endFrame)
  have hr : o.render.2 = { o with mixer := o.mixer.after o.remaining } :=
    renderFrames_snd h.channels_pos _
  have hclock : o.mixer.frame + o.remaining = o.mixer.endFrame := by
    unfold remaining
    omega
  rw [hr]
  unfold Mixer.Settled
  rw [Mixer.endFrame_after, Mixer.after_frame, hclock, max_self]
  exact ⟨rfl, rfl⟩

end StandsAfter

/-! ## Once all is rendered -/

section
variable {channels : Nat} {o : Offline}

theorem remaining_of_settled (h : o.mixer.Settled) : o.remaining = 0 := by
  unfold remaining
  rw [h, Nat.sub_self]

theorem render_of_settled (h : o.mixer.Settled) : o.render.1 = #[] := by
  rw [← Array.size_eq_zero_iff, render, size_renderFrames, remaining_of_settled h, Nat.zero_mul]

structure Gives (channels frames : Nat) (o : Offline) (samples : List Float32) (o' : Offline) :
    Prop where
  length_eq : samples.length = frames * max channels 1
  silent : ∀ x ∈ samples, (x == 0.0) = true
  frame_eq : o'.mixer.frame = o.mixer.frame + frames
  settled : o'.mixer.Settled

theorem renderFrames_of_settled (hw : WellFormed channels o) (h : o.mixer.Settled) (n : Nat) :
    Gives channels n o (o.renderFrames n).1.toList (o.renderFrames n).2 := by
  have hsnd := renderFrames_snd hw.channels_pos n
  constructor
  · rw [Array.length_toList, size_renderFrames, hw.channels_eq]
  · exact hw.zero_of_no_sounds (fun k => (h.after k).sounds_eq) n
  · rw [hsnd]
    exact Mixer.after_frame n o.mixer
  · rw [hsnd]
    exact h.after n

/-- Only new tones can be heard after all the others have stopped. -/
theorem perform_of_settled (hw : WellFormed channels o) (h : o.mixer.Settled) {d : Direct}
    (hd : d.isSubmit = false) :
    Gives channels d.frames o (o.perform d).1.toList (happen d o) := by
  cases d with
  | render =>
    have hr : o.perform .render = o.renderFrames 0 := by
      rw [← remaining_of_settled h]
      rfl
    show Gives channels 0 o (o.perform .render).1.toList (o.perform .render).2
    rw [hr]
    exact renderFrames_of_settled hw h 0
  | renderFrames n => exact renderFrames_of_settled hw h n
  | submit cs => cases hd
  | setVolume v =>
    obtain ⟨-, -, hframe, hend⟩ := o.happen_setVolume_keeps v
    exact ⟨by simp [perform, Direct.frames], by simp [perform], hframe,
      hend.trans (h.trans hframe.symm)⟩
  | close => exact ⟨by simp [perform, Direct.frames], by simp [perform], rfl, rfl⟩

theorem performAll_of_settled (hw : WellFormed channels o) (h : o.mixer.Settled) {ds : List Direct}
    (hd : ds.any Direct.isSubmit = false) :
    Gives channels (ds.map Direct.frames).sum o (o.performAll ds).1 (o.performAll ds).2 := by
  induction ds generalizing o with
  | nil => exact ⟨by simp [performAll], by simp [performAll], rfl, h⟩
  | cons d ds ih =>
    rw [List.any_cons, Bool.or_eq_false_iff] at hd
    have hone := perform_of_settled hw h hd.1
    have hmore := ih (hw.happen d) hone.settled hd.2
    rw [performAll_cons, List.map_cons, List.sum_cons]
    constructor
    · rw [List.length_append, hone.length_eq, hmore.length_eq, Nat.add_mul]
    · exact List.forall_mem_append.mpr ⟨hone.silent, hmore.silent⟩
    · rw [hmore.frame_eq, hone.frame_eq, Nat.add_assoc]
    · exact hmore.settled

end

theorem onDesk_performAll {rate channels : Nat} {seed : UInt64} {o : Offline}
    (h : o.mixer.OnDesk rate channels seed) (ds : List Direct) :
    (o.performAll ds).2.mixer.OnDesk rate channels seed := by
  induction ds generalizing o with
  | nil => exact h
  | cons d ds ih => exact ih (onDesk_happen h d)

/--
However a renderer was used before, its mixer is that of a desk, and rendering gives each frame up to
the latest stop of all its tones. After that each frame that is asked for is given and is silent, and
none is left to render, until new tones come. A closing ends what there is to render, and from then on
tones and volumes are turned down without a trace.
-/
theorem render_ends_in_silence (rate channels : Nat) (seed : UInt64) (before : List Direct) :
    let o := ((start rate channels seed).performAll before).2
    let last := if before.any Direct.isClose then o.mixer.frame
      else lastOf rate o.mixer.frame (before.flatMap Direct.tones)
    (o.render.1.size = (last - o.mixer.frame) * max channels 1 ∧ o.render.2.mixer.frame = last) ∧
      (∀ later, later.any Direct.isSubmit = false →
        let frames := (later.map Direct.frames).sum
        (o.render.2.performAll later).1.length = frames * max channels 1 ∧
          (o.render.2.performAll later).2.mixer.frame = last + frames ∧
          (∀ x ∈ (o.render.2.performAll later).1, (x == 0.0) = true) ∧
          (o.render.2.performAll later).2.render.1 = #[]) ∧
      (before.any Direct.isClose = true → o.render.1 = #[] ∧ o.endTime = o.currentTime ∧
        (∀ cs, o.submit cs = .error .closed ∧ happen (.submit cs) o = o) ∧
        ∀ v, o.setVolume v = .error .closed ∧ happen (.setVolume v) o = o) ∧
      o.mixer.OnDesk rate channels seed := by
  intro o last
  have h : StandsAfter rate channels before o :=
    (standsAfter_start rate channels seed).performAll before
  have hlast : o.mixer.endFrame = last := h.endFrame_eq
  obtain ⟨hset, hclock⟩ := h.render_settled
  refine ⟨⟨?_, hclock.trans hlast⟩, fun later hlater => ?_, fun hclose => ?_,
    onDesk_performAll Mixer.onDesk_start before⟩
  · rw [render, size_renderFrames, h.channels_eq, remaining, hlast]
  · have hgives := performAll_of_settled (h.toWellFormed.renderFrames _) hset hlater
    refine ⟨hgives.length_eq, ?_, hgives.silent, render_of_settled hgives.settled⟩
    exact hgives.frame_eq.trans (congrArg (· + _) (hclock.trans hlast))
  · have hclosed : o.closed = true := h.closed_eq.trans hclose
    have hnow : o.mixer.Settled := hlast.trans (if_pos hclose)
    refine ⟨render_of_settled hnow, ?_, submit_of_closed hclosed, setVolume_of_closed hclosed⟩
    rw [endTime, currentTime, hnow]

end Offline

end ScoreSynth.Output
