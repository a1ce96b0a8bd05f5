import Mathlib.Algebra.Ring.Nat
import ScoreSynth.Proofs.Number.Zeros
import ScoreSynth.Proofs.Output.Desk
import ScoreSynth.Proofs.Session.Steps

/-!
# Silence after a stop

A session and its caller can share one renderer. Once the session has stopped while it held the
renderer, nothing that either of them does puts a tone in it again: all that goes on is its clock.
-/

namespace ScoreSynth

namespace Output

open Float.Model in
theorem clampSample_isFinite {v : Float32} (h : v.isNaN = false) :
    (clampSample 0.0 1.0 v).isFinite = true := by
  unfold clampSample
  split
  · decide
  · split
    · decide
    · rename_i hlow hhigh
      have hnan : v.toModel.unpack.isNaN = false := h
      have hlow : ¬ v.toModel.unpack.lt (0.0 : Float32).toModel.unpack = true :=
        fun e => hlow (decide_eq_true e)
      have hhigh : ¬ (1.0 : Float32).toModel.unpack.lt v.toModel.unpack = true :=
        fun e => hhigh (decide_eq_true e)
      show v.toModel.unpack.isFinite = true
      cases hv : v.toModel.unpack with
      | notANumber =>
        rw [hv] at hnan
        cases hnan
      | zero s => rfl
      | finite s m e hm => rfl
      | infinity s =>
        -- an infinity lies outside the interval, so one of the two tests caught it
        rw [hv] at hlow hhigh
        cases s with
        | positive => exact absurd (by decide) hhigh
        | negative => exact absurd (by decide) hlow

namespace Mixer

variable {m : Mixer}

/-- No voice at all mixes to zero, whatever finite number the volume is. -/
theorem sample_of_no_sounds {v : Float32} (h : v.isFinite = true) :
    (clampSample (-limit) limit (sum [] * v) == 0.0) = true := by
  have hs : sum [] = 0.0 := rfl
  rw [hs]
  rcases Number.zero_mul_sample h with hz | hz
  · rw [hz]; decide
  · rw [hz]; decide

theorem setVolume_isFinite (h : m.volume.isFinite = true) (v : Float32) :
    (m.setVolume v).volume.isFinite = true := by
  unfold setVolume
  split
  · exact h
  · rename_i hv
    exact clampSample_isFinite (by simpa using hv)

theorem next_of_idle (hq : m.queue = []) (hs : m.sounding = []) :
    m.next.2 = { m with frame := m.frame + 1 } := by
  simp [next, mix, dropStopped, startDue, due, voices, hq, hs]

theorem after_of_idle (hq : m.queue = []) (hs : m.sounding = []) (n : Nat) :
    m.after n = { m with frame := m.frame + n } := by
  induction n with
  | zero => rfl
  | succ n ih =>
    rw [after_succ', ih]
    exact next_of_idle (m := { m with frame := m.frame + n }) hq hs

theorem sounds_of_idle (hq : m.queue = []) (hs : m.sounding = []) (n : Nat) :
    (m.after n).sounds = [] := by
  rw [after_of_idle hq hs]
  simp [sounds, dropStopped, startDue, due, voices, hq, hs]

end Mixer

namespace Offline

inductive Direct where
  | render
  | renderFrames (frames : Nat)
  | submit (cs : List (Command Float))
  | setVolume (v : Float32)
  | close

def perform (r : Offline) : Direct → Array Float32 × Offline
  | .render => r.render
  | .renderFrames frames => r.renderFrames frames
  | .submit cs => (#[], (Backend.shared.submit () cs r).2)
  | .setVolume v => (#[], (Backend.shared.setVolume () v r).2)
  | .close => (#[], r.close)

def happen (d : Direct) (r : Offline) : Offline := (r.perform d).2

/-- The frames that a renderer with nothing left to render is asked for. -/
def Direct.frames : Direct → Nat
  | .renderFrames frames => frames
  | _ => 0

def forward (frames : Nat) (r : Offline) : Offline :=
  { r with mixer := { r.mixer with frame := r.mixer.frame + frames } }

theorem forward_forward (a b : Nat) (r : Offline) :
    (r.forward a).forward b = r.forward (a + b) := by
  simp [forward, Nat.add_assoc]

structure WellFormed (channels : Nat) (r : Offline) : Prop where
  channels_eq : r.mixer.channels = max channels 1
  volume : r.mixer.volume.isFinite = true

structure Silent (channels : Nat) (r : Offline) : Prop extends WellFormed channels r where
  closed : r.closed = true
  queue : r.mixer.queue = []
  sounding : r.mixer.sounding = []

variable {channels : Nat} {r : Offline}

theorem wellFormed_start (rate channels : Nat) (seed : UInt64) :
    WellFormed channels (start rate channels seed) where
  channels_eq := rfl
  volume := by
    show (1.0 : Float32).isFinite = true
    decide

namespace WellFormed

theorem channels_pos (h : WellFormed channels r) : 0 < r.mixer.channels := by
  rw [h.channels_eq]
  omega

theorem zero_of_no_sounds (h : WellFormed channels r) (hs : ∀ k, (r.mixer.after k).sounds = [])
    (n : Nat) : ∀ x ∈ (r.renderFrames n).1.toList, (x == 0.0) = true := by
  have hr : (r.renderFrames n).1 = (r.mixer.fill (n * r.mixer.channels)).1 := rfl
  rw [hr]
  intro x hx
  obtain ⟨i, hi, rfl⟩ := Array.getElem_of_mem (Array.mem_toList_iff.mp hx)
  rw [Mixer.getElem_fill h.channels_pos, Mixer.next_fst, Mixer.after_volume, hs]
  exact Mixer.sample_of_no_sounds h.volume

theorem submit (h : WellFormed channels r) (cs : List (Command Float)) :
    WellFormed channels (Backend.shared.submit () cs r).2 := by
  simp only [Backend.shared, Offline.submit]
  cases r.closed with
  | true => exact h
  | false => exact ⟨h.channels_eq, h.volume⟩

theorem setVolume (h : WellFormed channels r) (v : Float32) :
    WellFormed channels (Backend.shared.setVolume () v r).2 := by
  simp only [Backend.shared, Offline.setVolume]
  cases r.closed with
  | true => exact h
  | false =>
    refine ⟨?_, Mixer.setVolume_isFinite h.volume v⟩
    show (r.mixer.setVolume v).channels = _
    rw [← h.channels_eq]
    unfold Mixer.setVolume
    split <;> rfl

theorem close (h : WellFormed channels r) : Silent channels r.close :=
  ⟨⟨h.channels_eq, h.volume⟩, rfl, rfl, rfl⟩

theorem renderFrames (h : WellFormed channels r) (n : Nat) :
    WellFormed channels (r.renderFrames n).2 := by
  refine ⟨?_, ?_⟩
  · show (r.mixer.fill (n * r.mixer.channels)).2.channels = _
    rw [Mixer.fill_channels, h.channels_eq]
  · show (r.mixer.fill (n * r.mixer.channels)).2.volume.isFinite = true
    rw [Mixer.fill_snd, Mixer.after_volume]
    exact h.volume

theorem happen (h : WellFormed channels r) (d : Direct) : WellFormed channels (happen d r) := by
  cases d with
  | render => exact h.renderFrames _
  | renderFrames n => exact h.renderFrames n
  | submit cs => exact h.submit cs
  | setVolume v => exact h.setVolume v
  | close => exact h.close.toWellFormed

end WellFormed

theorem keeps_onDesk {rate channels : Nat} {seed : UInt64} :
    Backend.shared.Keeps fun r => r.mixer.OnDesk rate channels seed where
  create h := h
  submit {_ r} cs h := by
    simp only [Backend.shared]
    cases hs : r.submit cs with
    | error f => exact h
    | ok r' => exact onDesk_submit h hs
  setVolume {_ r} v h := by
    simp only [Backend.shared]
    cases hs : r.setVolume v with
    | error f => exact h
    | ok r' => exact onDesk_setVolume h hs
  close h := h.perform .clear

theorem onDesk_happen {rate channels : Nat} {seed : UInt64}
    (h : r.mixer.OnDesk rate channels seed) (d : Direct) :
    (happen d r).mixer.OnDesk rate channels seed := by
  cases d with
  | render => exact onDesk_renderFrames h _
  | renderFrames n => exact onDesk_renderFrames h n
  | submit cs => exact keeps_onDesk.submit cs h
  | setVolume v => exact keeps_onDesk.setVolume v h
  | close => exact h.perform .clear

namespace Silent

theorem submit (h : Silent channels r) (cs : List (Command Float)) :
    r.submit cs = .error .closed := by
  unfold Offline.submit
  rw [h.closed]
  rfl

theorem setVolume (h : Silent channels r) (v : Float32) : r.setVolume v = .error .closed := by
  unfold Offline.setVolume
  rw [h.closed]
  rfl

theorem close (h : Silent channels r) : r.close = r := by
  obtain ⟨⟨rate, chans, frame, queue, sounding, volume, seed⟩, submitted, closed⟩ := r
  obtain ⟨-, hc, hq, hs⟩ := h
  cases hc
  cases hq
  cases hs
  rfl

theorem forward (h : Silent channels r) (n : Nat) : Silent channels (r.forward n) :=
  ⟨⟨h.channels_eq, h.volume⟩, h.closed, h.queue, h.sounding⟩

theorem renderFrames (h : Silent channels r) (n : Nat) :
    (r.renderFrames n).2 = r.forward n ∧
      (r.renderFrames n).1.toList.length = n * max channels 1 ∧
      ∀ x ∈ (r.renderFrames n).1.toList, (x == 0.0) = true := by
  have hsounds : ∀ k, (r.mixer.after k).sounds = [] := Mixer.sounds_of_idle h.queue h.sounding
  refine ⟨?_, ?_, h.toWellFormed.zero_of_no_sounds hsounds n⟩
  · show { r with mixer := (r.mixer.fill (n * r.mixer.channels)).2 } = _
    rw [Mixer.fill_snd, framesIn_mul h.channels_pos, Mixer.after_of_idle h.queue h.sounding]
    rfl
  · show (r.mixer.fill (n * r.mixer.channels)).1.toList.length = _
    rw [Array.length_toList, Mixer.size_fill, h.channels_eq]

theorem remaining (h : Silent channels r) : r.remaining = 0 := by
  have hstops : r.mixer.stops = [] := by simp [Mixer.stops, h.queue, h.sounding]
  rw [Offline.remaining, Mixer.endFrame, hstops, List.foldl_nil, Nat.sub_self]

/-- Each call on a silent renderer gives silence, and moves the clock by the frames it asks for. -/
theorem perform (h : Silent channels r) (d : Direct) : (r.perform d).2 = r.forward d.frames ∧
    (r.perform d).1.toList.length = d.frames * max channels 1 ∧
    ∀ x ∈ (r.perform d).1.toList, (x == 0.0) = true := by
  cases d with
  | render =>
    have hr : r.perform .render = r.renderFrames 0 := by
      rw [← h.remaining]
      rfl
    rw [hr]
    exact h.renderFrames 0
  | renderFrames n => exact h.renderFrames n
  | submit cs =>
    refine ⟨?_, by simp [Offline.perform, Direct.frames], by simp [Offline.perform]⟩
    simp only [Offline.perform, Backend.shared, h.submit cs]
    rfl
  | setVolume v =>
    refine ⟨?_, by simp [Offline.perform, Direct.frames], by simp [Offline.perform]⟩
    simp only [Offline.perform, Backend.shared, h.setVolume v]
    rfl
  | close => exact ⟨h.close, by simp [Offline.perform, Direct.frames], by simp [Offline.perform]⟩

end Silent

end Offline

end Output

namespace Session

open Output Offline

def given (s : Session Offline Unit) : Step Direct → List Float32
  | .apart d => (s.world.perform d).1.toList
  | _ => []

def heard (s : Session Offline Unit) : List (Step Direct) → List Float32
  | [] => []
  | step :: steps => s.given step ++ heard (s.act Backend.shared happen step) steps

def Step.frames : Step Direct → Nat
  | .apart d => d.frames
  | _ => 0

variable {channels : Nat} {s : Session Offline Unit}

theorem keeps_wellFormed : Backend.shared.Keeps (WellFormed channels) where
  create h := h
  submit cs h := h.submit cs
  setVolume v h := h.setVolume v
  close h := h.close.toWellFormed

theorem keeps_silent {r : Offline} (h : Silent channels r) : Backend.shared.Keeps (· = r) where
  create h := h
  submit cs e := by
    subst e
    simp only [Backend.shared, h.submit cs]
  setVolume v e := by
    subst e
    simp only [Backend.shared, h.setVolume v]
  close e := by
    subst e
    exact h.close

theorem act_silent (h : Silent channels s.world) (step : Step Direct) :
    (s.act Backend.shared happen step).world = s.world.forward step.frames ∧
      (s.given step).length = step.frames * max channels 1 ∧
      ∀ x ∈ s.given step, (x == 0.0) = true := by
  cases step with
  | render score =>
    exact ⟨(keeps_silent h).render rfl score, by simp [given, Step.frames], by simp [given]⟩
  | stop hd => exact ⟨(keeps_silent h).stop rfl hd, by simp [given, Step.frames], by simp [given]⟩
  | apart d => exact h.perform d

theorem run_silent (h : Silent channels s.world) (steps : List (Step Direct)) :
    (s.run Backend.shared happen steps).world = s.world.forward (steps.map Step.frames).sum ∧
      (s.heard steps).length = (steps.map Step.frames).sum * max channels 1 ∧
      ∀ x ∈ s.heard steps, (x == 0.0) = true := by
  induction steps generalizing s with
  | nil => exact ⟨rfl, by simp [heard], by simp [heard]⟩
  | cons step steps ih =>
    obtain ⟨hworld, hlength, hzero⟩ := act_silent h step
    obtain ⟨ihworld, ihlength, ihzero⟩ :=
      ih (s := s.act Backend.shared happen step) (hworld ▸ h.forward step.frames)
    rw [List.map_cons, List.sum_cons]
    refine ⟨?_, ?_, fun x hx => ?_⟩
    · rw [run_cons, ihworld, hworld, forward_forward]
    · rw [heard, List.length_append, hlength, ihlength, Nat.add_mul]
    · rw [heard, List.mem_append] at hx
      rcases hx with hx | hx
      · exact hzero x hx
      · exact ihzero x hx

/-- A session gets the closed renderer again, but it can hand no tone to it. -/
theorem render_silent (h : Silent channels s.world) (score : Score) :
    (s.render Backend.shared score).1.status = .unavailable .closed := by
  cases ho : s.output with
  | some out =>
    rw [render_of_held ho]
    unfold submit
    simp only [Backend.shared, h.submit]
  | none =>
    obtain ⟨events, ha⟩ := adopt_eq Backend.shared s ()
    -- the renderer is held again, as creating it always succeeds and a refused volume is noted only
    have hw : (Backend.shared.setVolume () s.settings.volume s.world).2 = s.world :=
      (keeps_silent h).setVolume _ rfl
    have hc : Backend.shared.create s.world = (.ok (), s.world) := rfl
    rw [render_of_created ho hc, ha, hw]
    unfold submit
    simp only [Backend.shared, h.submit]

/--
Whatever a session and its caller do with a renderer that they share: from a stop on that finds the
renderer held, no step changes anything but the clock, which moves by the frames that are asked for.
These are given, and every sample is zero; no tones and no volume are taken. All the time the renderer
has the mixer of a desk.
-/
theorem only_silence_after_stop (settings : Settings) (rate channels : Nat) (seed : UInt64)
    (before later : List (Step Direct)) (h : Handle) :
    let s := (start settings (Offline.start rate channels seed)).run Backend.shared happen before
    let stopped := s.stop Backend.shared h
    let s' := stopped.run Backend.shared happen later
    let frames := (later.map Step.frames).sum
    s.isActive = true →
      s'.world = stopped.world.forward frames ∧
      s'.world.mixer.frame = s.world.mixer.frame + frames ∧
      (stopped.heard later).length = frames * max channels 1 ∧
      (∀ x ∈ stopped.heard later, (x == 0.0) = true) ∧
      s'.world.mixer.queue = [] ∧
      (∀ score, (s'.render Backend.shared score).1.status = .unavailable .closed) ∧
      (∀ cs, s'.world.submit cs = .error .closed) ∧
      (∀ v, s'.world.setVolume v = .error .closed) ∧
      s.world.mixer.OnDesk rate channels seed ∧ s'.world.mixer.OnDesk rate channels seed := by
  intro s stopped s' frames hactive
  -- up to the stop only the form of the renderer counts, from there on its silence
  have hw : WellFormed channels s.world :=
    keeps_wellFormed.run (fun d _ h => h.happen d) (wellFormed_start rate channels seed) before
  obtain ⟨out, ho⟩ := Option.isSome_iff_exists.mp hactive
  have hclosed : stopped.world = s.world.close := by
    show (s.stop Backend.shared h).world = _
    rw [stop_of_held ho]
    rfl
  have hstop : Silent channels stopped.world := hclosed ▸ hw.close
  obtain ⟨hworld, hlength, hzero⟩ := run_silent hstop later
  have hlater : Silent channels s'.world := hworld ▸ hstop.forward frames
  have hframe : s'.world.mixer.frame = s.world.mixer.frame + frames := by
    rw [hworld, hclosed]
    rfl
  have hdesk : s.world.mixer.OnDesk rate channels seed :=
    keeps_onDesk.run (fun d _ h => onDesk_happen h d) Mixer.onDesk_start before
  have hdesk' : s'.world.mixer.OnDesk rate channels seed :=
    keeps_onDesk.run (fun d _ h => onDesk_happen h d) (keeps_onDesk.stop hdesk h) later
  exact ⟨hworld, hframe, hlength, hzero, hlater.queue, render_silent hlater, hlater.submit,
    hlater.setVolume, hdesk, hdesk'⟩

/-- A second stop, a new score and a late tone add nothing to the frames that are asked for. -/
theorem only_silence_after_stop_of_note :
    let note : Score := .ofTracks 120 [⟨"piano", [⟨[.ofNotes [.melodic .a 4 .one]]⟩]⟩]
    let h : Handle := ⟨1, .unavailable .closed⟩
    let s := (start .defaults (Offline.start 44100 2 42)).run Backend.shared happen
      [.render note, .apart (.renderFrames 3)]
    let stopped := s.stop Backend.shared h
    let later : List (Step Direct) :=
      [.apart (.renderFrames 2), .render note, .stop h, .apart .render, .apart (.renderFrames 5)]
    let s' := stopped.run Backend.shared happen later
    s.isActive = true ∧ s.world.mixer.queue.length = 1 ∧
      s.world.mixer.frame = 3 ∧ s'.world.mixer.frame = 10 ∧
      (stopped.heard later).length = 14 ∧ ∀ x ∈ stopped.heard later, (x == 0.0) = true := by
  intro note h s stopped later s'
  have hactive : s.isActive = true := rfl
  have hqueue : s.world.mixer.queue.length = 1 := by decide +kernel
  have hframe : s.world.mixer.frame = 3 := by decide +kernel
  obtain ⟨-, hclock, hlength, hzero, -⟩ :=
    only_silence_after_stop .defaults 44100 2 42 _ later h hactive
  refine ⟨hactive, hqueue, hframe, ?_, hlength, hzero⟩
  exact hclock.trans (congrArg (· + 7) hframe)

end Session

end ScoreSynth
