import ScoreSynth.Proofs.Session.CallLog
import ScoreSynth.Proofs.Session.Steps

/-!
# The lives of outputs

Any backend can be made to keep a log of the calls on it. A session over the logging backend goes as
over the backend itself, and its log is orderly: each output it creates has its whole life before the
next one is asked for.
-/

namespace ScoreSynth

open CallLog (Orderly OneByOne)

structure Logged (w : Type) where
  world : w
  log : List Mark

variable {w o e : Type}

/--
The backend with a log of its calls. A clock leaves no mark when it is read, but shows `junk` where
the output has not got its volume yet or is closed.
-/
def Backend.logging (backend : Backend w o) (junk : Float) : Backend (Logged w) (Nat × o) where
  create x :=
    match backend.create x.world with
    | (.ok out, world) =>
      (.ok (CallLog.created x.log, out), ⟨world, x.log ++ [.create (some (CallLog.created x.log))]⟩)
    | (.error f, world) => (.error f, ⟨world, x.log ++ [.create none]⟩)
  time out x := if CallLog.isReady out.1 x.log then backend.time out.2 x.world else junk
  submit out cs x :=
    let (result, world) := backend.submit out.2 cs x.world
    (result, ⟨world, x.log ++ [.use out.1 (.submit cs)]⟩)
  setVolume out v x :=
    let (result, world) := backend.setVolume out.2 v x.world
    (result, ⟨world, x.log ++ [.use out.1 (.volume v)]⟩)
  close out x := ⟨backend.close out.2 x.world, x.log ++ [.use out.1 .close]⟩

def Logged.apart (happen : e → w → w) (e : e) (x : Logged w) : Logged w :=
  { x with world := happen e x.world }

namespace Session

def withoutLog (s : Session (Logged w) (Nat × o)) : Session w o :=
  ⟨s.settings, s.output.map Prod.snd, s.number, s.world.world, s.events⟩

structure Kept (s : Session (Logged w) (Nat × o)) : Prop where
  closed : s.output = none → Orderly s.settings.volume .closed s.number s.world.log
  ready : ∀ out, s.output = some out →
    s.number = out.1 + 1 ∧ Orderly s.settings.volume .ready s.number s.world.log

section
variable {backend : Backend w o} {happen : e → w → w} {junk : Float}
  {s : Session (Logged w) (Nat × o)}

theorem kept_start (settings : Settings) (world : w) :
    Kept (start settings ⟨world, []⟩ : Session (Logged w) (Nat × o)) where
  closed := fun _ => .start
  ready := nofun

theorem create_logging_ok {x : Logged w} {out : o} {world : w}
    (h : backend.create x.world = (.ok out, world)) :
    (backend.logging junk).create x = (.ok (CallLog.created x.log, out),
      ⟨world, x.log ++ [.create (some (CallLog.created x.log))]⟩) := by
  simp only [Backend.logging, h]

theorem create_logging_error {x : Logged w} {f : Output.Failure} {world : w}
    (h : backend.create x.world = (.error f, world)) :
    (backend.logging junk).create x = (.error f, ⟨world, x.log ++ [.create none]⟩) := by
  simp only [Backend.logging, h]

inductive Rendered (s : Session (Logged w) (Nat × o)) : Session (Logged w) (Nat × o) → Prop
  | again {world events out cs} (held : s.output = some out) :
      Rendered s ⟨s.settings, some out, s.number,
        ⟨world, s.world.log ++ [.use out.1 (.submit cs)]⟩, events⟩
  | refused {world events} (held : s.output = none) :
      Rendered s ⟨s.settings, none, s.number, ⟨world, s.world.log ++ [.create none]⟩, events⟩
  | created {world events out cs} (held : s.output = none) :
      Rendered s ⟨s.settings, some (s.number, out), s.number + 1,
        ⟨world, s.world.log ++ [.create (some s.number)] ++
          [.use s.number (.volume s.settings.volume)] ++ [.use s.number (.submit cs)]⟩, events⟩

theorem Kept.rendered (h : Kept s) (score : Score) :
    Rendered s (s.render (backend.logging junk) score).2 := by
  have hr := renders (backend.logging junk) s score
  generalize s.render (backend.logging junk) score = r at hr ⊢
  cases hr with
  | again cs status events held => exact .again held
  | refused events held create =>
    cases hc : backend.create s.world.world with
    | mk result world =>
      cases result with
      | error f =>
        rw [create_logging_error hc] at create
        cases create
        exact .refused held
      | ok out =>
        rw [create_logging_ok hc] at create
        cases create
  | created cs status events held create =>
    cases hc : backend.create s.world.world with
    | mk result world =>
      cases result with
      | error f =>
        rw [create_logging_error hc] at create
        cases create
      | ok out =>
        rw [create_logging_ok hc, (h.closed held).created_eq] at create
        cases create
        exact .created held

theorem Rendered.kept {s' : Session (Logged w) (Nat × o)} (hr : Rendered s s') (h : Kept s) :
    Kept s' := by
  cases hr with
  | again held =>
    obtain ⟨hn, ho⟩ := h.ready _ held
    refine ⟨nofun, fun out e => ?_⟩
    cases e
    refine ⟨hn, ?_⟩
    rw [hn] at ho ⊢
    exact ho.submit _
  | refused held => exact ⟨fun _ => (h.closed held).refused, nofun⟩
  | created held =>
    refine ⟨nofun, fun out e => ?_⟩
    cases e
    exact ⟨rfl, (h.closed held).created.volume.submit _⟩

theorem Kept.stop (h : Kept s) (hd : Handle) : Kept (s.stop (backend.logging junk) hd) := by
  cases ho : s.output with
  | none =>
    rw [stop_of_none ho]
    exact h
  | some out =>
    obtain ⟨hn, hr⟩ := h.ready out ho
    rw [stop_of_held ho]
    refine ⟨fun _ => ?_, nofun⟩
    show Orderly s.settings.volume .closed s.number (s.world.log ++ [.use out.1 .close])
    rw [hn] at hr ⊢
    exact hr.close

theorem Kept.act (h : Kept s) (step : Step e) :
    Kept (s.act (backend.logging junk) (Logged.apart happen) step) := by
  cases step with
  | render score => exact (h.rendered score).kept h
  | stop hd => exact h.stop hd
  | apart e => exact ⟨h.closed, h.ready⟩

theorem Kept.run (h : Kept s) (steps : List (Step e)) :
    Kept (s.run (backend.logging junk) (Logged.apart happen) steps) := by
  induction steps generalizing s with
  | nil => exact h
  | cons step steps ih =>
    rw [run_cons]
    exact ih (h.act step)

/-! ## The session without its log -/

theorem withoutLog_held {out : Nat × o} (h : s.output = some out) :
    s.withoutLog.output = some out.2 := by
  simp [withoutLog, h]

theorem withoutLog_free (h : s.output = none) : s.withoutLog.output = none := by
  simp [withoutLog, h]

theorem submit_logging (backend : Backend w o) (junk : Float) {out : Nat × o}
    (h : CallLog.isReady out.1 s.world.log = true) (score : Score) :
    (s.submit (backend.logging junk) out score).1 = (s.withoutLog.submit backend out.2 score).1 ∧
      (s.submit (backend.logging junk) out score).2.withoutLog =
        (s.withoutLog.submit backend out.2 score).2 := by
  have ht : (backend.logging junk).time out s.world = backend.time out.2 s.world.world := if_pos h
  unfold submit
  simp only [ht, withoutLog]
  generalize Plan.score score (backend.time out.2 s.world.world + s.settings.lookahead)
    s.settings.releaseTail = cs
  cases hs : backend.submit out.2 cs s.world.world with
  | mk result world =>
    cases result with
    | ok _ => simp [Backend.logging, hs, note]
    | error f => simp [Backend.logging, hs, note]

theorem withoutLog_adopt (s : Session (Logged w) (Nat × o)) (out : Nat × o) :
    (s.adopt (backend.logging junk) out).withoutLog = s.withoutLog.adopt backend out.2 := by
  unfold adopt
  cases hv : backend.setVolume out.2 s.settings.volume s.world.world with
  | mk result world =>
    cases result with
    | ok _ => simp [Backend.logging, hv, withoutLog, note]
    | error f => simp [Backend.logging, hv, withoutLog, note]

theorem Kept.render_logging (h : Kept s) (score : Score) :
    (s.render (backend.logging junk) score).1 = (s.withoutLog.render backend score).1 ∧
      (s.render (backend.logging junk) score).2.withoutLog =
        (s.withoutLog.render backend score).2 := by
  cases ho : s.output with
  | some out =>
    obtain ⟨hn, hr⟩ := h.ready out ho
    rw [render_of_held ho, render_of_held (withoutLog_held ho)]
    rw [hn] at hr
    exact submit_logging backend junk hr.isReady score
  | none =>
    have hw := withoutLog_free ho
    cases hc : backend.create s.world.world with
    | mk result world =>
      cases result with
      | error f =>
        rw [render_of_refused ho (create_logging_error hc),
          render_of_refused (s := s.withoutLog) hw hc]
        exact ⟨rfl, rfl⟩
      | ok out =>
        have hk : CallLog.created s.world.log = s.number := (h.closed ho).created_eq
        rw [render_of_created ho (create_logging_ok hc),
          render_of_created (s := s.withoutLog) hw hc, hk]
        generalize hs : ({ s with world := ⟨world, s.world.log ++ [.create (some s.number)]⟩ } :
          Session (Logged w) (Nat × o)) = s₁
        have hready : CallLog.isReady (s.number, out).1
            (s₁.adopt (backend.logging junk) (s.number, out)).world.log = true := by
          obtain ⟨events, ha⟩ := adopt_eq (backend.logging junk) s₁ (s.number, out)
          rw [ha, ← hs]
          exact (h.closed ho).created.volume.isReady
        have hlog := submit_logging backend junk hready score
        rw [withoutLog_adopt] at hlog
        subst hs
        exact hlog

theorem withoutLog_stop (s : Session (Logged w) (Nat × o)) (hd : Handle) :
    (s.stop (backend.logging junk) hd).withoutLog = s.withoutLog.stop backend hd := by
  cases ho : s.output with
  | none =>
    rw [stop_of_none ho, stop_of_none (withoutLog_free ho)]
  | some out =>
    rw [stop_of_held ho, stop_of_held (withoutLog_held ho)]
    rfl

theorem Kept.withoutLog_act (h : Kept s) (step : Step e) :
    (s.act (backend.logging junk) (Logged.apart happen) step).withoutLog =
      s.withoutLog.act backend happen step := by
  cases step with
  | render score => exact (h.render_logging score).2
  | stop hd => exact withoutLog_stop s hd
  | apart e => rfl

theorem Kept.withoutLog_run (h : Kept s) (steps : List (Step e)) :
    (s.run (backend.logging junk) (Logged.apart happen) steps).withoutLog =
      s.withoutLog.run backend happen steps := by
  induction steps generalizing s with
  | nil => rfl
  | cons step steps ih =>
    rw [run_cons, run_cons, ih (h.act step), h.withoutLog_act]

/-! ## What a call adds to the log -/

theorem Kept.release (h : Kept s) : Orderly s.settings.volume .closed s.number
    (s.release (backend.logging junk)).world.log := by
  unfold Session.release
  cases ho : s.output with
  | none => exact h.closed ho
  | some out =>
    obtain ⟨hn, hr⟩ := h.ready out ho
    rw [hn] at hr ⊢
    exact hr.close

theorem asked_release (s : Session (Logged w) (Nat × o)) :
    CallLog.asked (s.release (backend.logging junk)).world.log = CallLog.asked s.world.log := by
  unfold Session.release
  cases ho : s.output with
  | none => rfl
  | some out => simp [CallLog.asked, Backend.logging, Mark.isCreate]

theorem asked_stop (s : Session (Logged w) (Nat × o)) (hd : Handle) :
    CallLog.asked (s.stop (backend.logging junk) hd).world.log = CallLog.asked s.world.log := by
  cases ho : s.output with
  | none => rw [stop_of_none ho]
  | some out =>
    rw [stop_of_held ho]
    simp [CallLog.asked, Backend.logging, Mark.isCreate]

theorem Rendered.asked_eq {s' : Session (Logged w) (Nat × o)} (h : Rendered s s') :
    CallLog.asked s'.world.log = CallLog.asked s.world.log + if s.isActive then 0 else 1 := by
  unfold CallLog.asked isActive
  cases h with
  | again held => simp [held, Mark.isCreate]
  | refused held => simp [held, Mark.isCreate]
  | created held => simp [held, Mark.isCreate, List.countP_cons]

theorem Rendered.isClosed_eq {s' : Session (Logged w) (Nat × o)} (h : Rendered s s') (n : Nat) :
    CallLog.isClosed n s'.world.log = CallLog.isClosed n s.world.log := by
  have hs : ∀ (log : List Mark) i u, u.isClose = false →
      CallLog.isClosed n (log ++ [.use i u]) = CallLog.isClosed n log := by
    intro log i u hu
    unfold CallLog.isClosed
    by_cases hi : i = n
    · subst hi
      simp [CallLog.usesOf_concat_self, hu]
    · rw [CallLog.usesOf_concat_ne hi]
  have hc : ∀ (log : List Mark) m,
      CallLog.isClosed n (log ++ [.create m]) = CallLog.isClosed n log := by
    intro log m
    unfold CallLog.isClosed
    rw [CallLog.usesOf_concat_create]
  cases h with
  | again held => exact hs _ _ _ rfl
  | refused held => exact hc _ _
  | created held => rw [hs _ _ _ rfl, hs _ _ _ rfl, hc]

theorem Kept.created_eq (h : Kept s) : CallLog.created s.world.log = s.number := by
  cases ho : s.output with
  | none => exact (h.closed ho).created_eq
  | some out => exact (h.ready out ho).2.created_eq

end

/--
Whatever outputs do and whenever their creation fails, a session goes the same with a log and without
one. The log of all calls up to its end tells that each output had its whole life before the next. An
output is asked for by those renders that find none held; if that fails, none is held and the number
of the session stays. A stop that finds no output does nothing. The number on a handle is that of the
outputs created so far, and two handles of tones that were taken have one number just if no stop in
between found an output.
-/
theorem outputs_live_one_by_one (backend : Backend w o) (happen : e → w → w) (junk : Float)
    (settings : Settings) (world : w) :
    let log := backend.logging junk
    let after := fun steps : List (Step e) =>
      (start settings ⟨world, []⟩ : Session (Logged w) (Nat × o)).run log (Logged.apart happen) steps
    (∀ steps, (after steps).withoutLog = (start settings world).run backend happen steps) ∧
    (∀ steps, let whole := ((after steps).release log).world.log
      OneByOne settings.volume whole ∧
      CallLog.asked whole = CallLog.asked (after steps).world.log) ∧
    (∀ steps score, let s := after steps; let r := s.render log score
      r.1 = (s.withoutLog.render backend score).1 ∧
      r.1.session = CallLog.created r.2.world.log ∧
      CallLog.asked r.2.world.log = CallLog.asked s.world.log + (if s.isActive then 0 else 1) ∧
      (∀ n, CallLog.isClosed n r.2.world.log = CallLog.isClosed n s.world.log) ∧
      (∀ f, s.output = none → (backend.create s.world.world).1 = .error f →
        r.2.output = none ∧ r.2.number = s.number)) ∧
    (∀ steps h, let s := after steps
      CallLog.asked (s.stop log h).world.log = CallLog.asked s.world.log ∧
      (s.output = none → s.stop log h = s)) ∧
    (∀ before a between b, let s := after before; let r := s.render log a
      let r' := (r.2.run log (Logged.apart happen) between).render log b
      r.1.isScheduled = true → r'.1.isScheduled = true →
        (r.1.session = r'.1.session ↔ Unstopped log (Logged.apart happen) r.2 between)) := by
  intro log after
  have hk : ∀ steps, Kept (after steps) := fun steps => (kept_start settings world).run steps
  refine ⟨fun steps => (kept_start settings world).withoutLog_run steps, fun steps => ?_,
    fun steps score => ?_, fun steps h => ⟨asked_stop _ h, fun ho => stop_of_none ho h⟩,
    fun before a between b ha hb => session_eq_iff rfl rfl ha hb⟩
  · have hlives : Orderly (after steps).settings.volume .closed (after steps).number
        ((after steps).release log).world.log := (hk steps).release
    rw [settings_run] at hlives
    exact ⟨hlives.oneByOne, asked_release _⟩
  · intro s r
    have hr : Rendered s r.2 := (hk steps).rendered score
    refine ⟨((hk steps).render_logging score).1, ?_, hr.asked_eq, hr.isClosed_eq, ?_⟩
    · rw [(hr.kept (hk steps)).created_eq]
      exact (renders log s score).session_eq
    · intro f ho hf
      rw [show r = _ from render_of_refused ho (create_logging_error (Prod.ext hf rfl)) score]
      exact ⟨ho, rfl⟩

end Session

end ScoreSynth
