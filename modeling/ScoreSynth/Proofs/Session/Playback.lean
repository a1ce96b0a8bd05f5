import ScoreSynth.Proofs.Output.Desk
import ScoreSynth.Proofs.Output.Ending
import ScoreSynth.Proofs.Session.Steps

/-!
# What a handle says of the sound

A score that is rendered to a fresh renderer is planned from the lookahead on. The handle tells when
the first of its tones may start and when the last one stops, and the renderer's next samples end
with that stop.
-/

namespace ScoreSynth

open Number Output

/-! ## The clock of a fresh renderer -/

theorem Output.Offline.currentTime_of_zero {o : Offline} (hrate : 0 < o.mixer.rate)
    (h : o.mixer.frame = 0) : o.currentTime = 0.0 := by
  have h0 : (Float.ofNat 0).toModel.unpack = .zero .positive := rfl
  rw [currentTime, seconds, h, div_eq, h0]
  rcases (ofNat_spec o.mixer.rate).1.kinds with ⟨t, k⟩ | k | ⟨n, f, hn, k⟩
  · exact absurd (magnitude_of_zero k) (magnitude_ofNat_ne_zero hrate)
  · rw [k]
    rfl
  · rw [k]
    rfl

namespace Session

/-! ## An open renderer -/

section
variable {s : Session Offline Unit} (h : s.world.closed = false) (score : Score)
include h

theorem submit_shared {startsAt : Float} {plan : List (Command Float)}
    (hstart : s.world.currentTime + s.settings.lookahead = startsAt)
    (hplan : Plan.score score startsAt s.settings.releaseTail = plan) :
    (s.submit .shared () score).1.status =
        .scheduled plan.length startsAt (latestStop startsAt plan) ∧
      (s.submit .shared () score).2.world =
        { s.world with
          submitted := s.world.submitted ++ plan
          mixer := s.world.mixer.schedule plan } := by
  subst hplan hstart
  constructor
  · simp [submit, Backend.shared, Offline.submit, h]
  · simp [submit, Backend.shared, Offline.submit, h, note]

end

variable (settings : Settings) (rate channels : Nat) (seed : UInt64) (score : Score)

/-- A fresh renderer gets its volume and then the tones. -/
theorem render_start_shared : ∃ events volume,
    (Mixer.start rate channels seed).setVolume settings.volume =
        { Mixer.start rate channels seed with volume := volume } ∧
      render .shared (start settings (Offline.start rate channels seed)) score =
        submit .shared ⟨settings, some (), 1,
          ⟨{ Mixer.start rate channels seed with volume := volume }, [], false⟩, events⟩ () score := by
  obtain ⟨events, hadopt⟩ := adopt_eq .shared (start settings (Offline.start rate channels seed)) ()
  have hvolume : ∃ volume, (Mixer.start rate channels seed).setVolume settings.volume =
      { Mixer.start rate channels seed with volume := volume } := by
    unfold Mixer.setVolume
    split
    · exact ⟨_, rfl⟩
    · exact ⟨_, rfl⟩
  obtain ⟨volume, hvolume⟩ := hvolume
  have hrender : render .shared (start settings (Offline.start rate channels seed)) score =
      submit .shared (adopt .shared (start settings (Offline.start rate channels seed)) ()) ()
        score := render_of_created rfl rfl score
  refine ⟨events, volume, hvolume, hrender.trans ?_⟩
  rw [hadopt, ← hvolume]
  rfl

/-- The handle of a score tells the truth of the sound: all tones were handed over as planned from
the lookahead on, none starts before the handle says or stops after it, one stops just when it
says, and the samples rendered next end with that stop. A desk that gets the volume and then the
tones stands where the renderer does. -/
theorem render_shared (hlookahead : 0.0 ≤ settings.lookahead) :
    let plan := Plan.score score settings.lookahead settings.releaseTail
    let rendered := render .shared (start settings (Offline.start rate channels seed)) score
    plan ≠ [] → ∃ startsAt endsAt,
      rendered.1.status = .scheduled plan.length startsAt endsAt ∧
        (startsAt == settings.lookahead) = true ∧
        rendered.2.world.submitted = plan ∧
        (∀ c ∈ plan, startsAt ≤ c.start ∧ c.stop ≤ endsAt) ∧
        (∃ c ∈ plan, (c.stop == endsAt) = true) ∧
        rendered.2.world.render.1.size = frameAt endsAt (max rate 1) * max channels 1 ∧
        ∀ room, ((Desk.start rate channels seed).performAll
          [.setVolume settings.volume, .schedule room plan]).Mirrors rendered.2.world.mixer := by
  intro plan rendered hne
  obtain ⟨events, volume, hvolume, hrender⟩ :=
    render_start_shared settings rate channels seed score
  let mixer : Mixer := { Mixer.start rate channels seed with volume := volume }
  have hl := nonNegative_of_le hlookahead
  obtain ⟨hbase, hsum⟩ := add_spec nonNegative_zero hl
  have hzero : magnitude 0.0 = 0 := rfl
  rw [hzero, zero_add, rounded_magnitude] at hsum
  have hplan : Plan.score score (0.0 + settings.lookahead) settings.releaseTail = plan :=
    Plan.score_zero_add score _ _
  have hfollows : ∀ c ∈ plan, c.Follows (0.0 + settings.lookahead) := by
    rw [← hplan]
    exact fun c hc => Plan.follows_score hbase score _ hc
  have hend := isLatestStop_latestStop hne hbase hfollows
  have hrate : 0 < mixer.rate := Nat.lt_of_lt_of_le Nat.one_pos (Nat.le_max_right rate 1)
  have htime : Offline.currentTime ⟨mixer, [], false⟩ = 0.0 := Offline.currentTime_of_zero hrate rfl
  obtain ⟨hstatus, hworld⟩ := submit_shared (s := ⟨settings, some (), 1, ⟨mixer, [], false⟩, events⟩)
    rfl score (congrArg (· + settings.lookahead) htime) hplan
  rw [← hrender] at hstatus hworld
  refine ⟨_, _, hstatus, (beq_iff_magnitude hbase hl).mpr hsum, ?_, ?_, hend.reached, ?_, fun room => ?_⟩
  · rw [hworld]
    rfl
  · exact fun c hc => ⟨(hfollows c hc).base_le, hend.le c hc⟩
  · have hframe := endFrame_schedule hfollows hend mixer hrate
    rw [hworld, size_render]
    show ((mixer.schedule plan).endFrame - 0) * mixer.channels = _
    rw [hframe]
    show (max 0 _ - 0) * _ = _
    rw [Nat.zero_max, Nat.sub_zero]
    rfl
  · have hdesk := Desk.mirrors_performAll rate channels seed
      [.setVolume settings.volume, .schedule room plan]
    have hmixer : rendered.2.world.mixer =
        ((Mixer.start rate channels seed).setVolume settings.volume).schedule plan := by
      rw [hworld, hvolume]
    rw [hmixer]
    exact hdesk

/-- A clap is three bursts, one shortly after the other. -/
theorem render_shared_clap :
    let score := Score.ofTracks 120 [⟨"drums", [⟨[.ofNotes [.drum "cl".toList .half]]⟩]⟩]
    let plan := Plan.score score Settings.defaults.lookahead Settings.defaults.releaseTail
    let rendered := render .shared (start .defaults (Offline.start 8000 2 0)) score
    0.0 ≤ Settings.defaults.lookahead ∧ plan.length = 3 ∧ ∃ startsAt endsAt,
      rendered.1.status = .scheduled plan.length startsAt endsAt ∧
        (startsAt == Settings.defaults.lookahead) = true ∧
        rendered.2.world.submitted = plan ∧
        (∀ c ∈ plan, startsAt ≤ c.start ∧ c.stop ≤ endsAt) ∧
        (∃ c ∈ plan, (c.stop == endsAt) = true) ∧
        rendered.2.world.render.1.size = frameAt endsAt 8000 * 2 ∧
        ∀ room, ((Desk.start 8000 2 0).performAll
          [.setVolume Settings.defaults.volume, .schedule room plan]).Mirrors
            rendered.2.world.mixer := by
  intro score plan rendered
  have hlookahead : 0.0 ≤ Settings.defaults.lookahead := by decide
  have hlength : plan.length = 3 := by decide +kernel
  have hne : plan ≠ [] := List.ne_nil_of_length_pos (by rw [hlength]; exact Nat.succ_pos 2)
  exact ⟨hlookahead, hlength, render_shared .defaults 8000 2 0 score hlookahead hne⟩

end Session

end ScoreSynth
