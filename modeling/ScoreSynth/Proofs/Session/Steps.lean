import ScoreSynth.Session

/-!
# Steps of a session

A session is rendered to and stopped in any order, and between two of these calls its outputs can
change on their own. What a step does to a session is told by whether an output is held: `render`
hands tones to the held output or makes a new one, and only a stop that holds an output ends it.
-/

namespace ScoreSynth

def Handle.isScheduled (h : Handle) : Bool :=
  match h.status with
  | .scheduled _ _ _ => true
  | .unavailable _ => false

namespace Session

inductive Step (e : Type) where
  | render (score : Score)
  | stop (h : Handle)
  /-- Something that the session has no part in. -/
  | apart (e : e)

variable {w o e : Type}

/-- `happen` says what becomes of the world where the session has no part. -/
def act (backend : Backend w o) (happen : e → w → w) (s : Session w o) : Step e → Session w o
  | .render score => (s.render backend score).2
  | .stop h => s.stop backend h
  | .apart e => { s with world := happen e s.world }

def run (backend : Backend w o) (happen : e → w → w) (s : Session w o) (steps : List (Step e)) :
    Session w o :=
  steps.foldl (act backend happen) s

section
variable (backend : Backend w o) (happen : e → w → w)

theorem run_nil (s : Session w o) : s.run backend happen [] = s := rfl

theorem run_cons (s : Session w o) (step : Step e) (steps : List (Step e)) :
    s.run backend happen (step :: steps) = (s.act backend happen step).run backend happen steps :=
  rfl

theorem run_append (s : Session w o) (before after : List (Step e)) :
    s.run backend happen (before ++ after) =
      (s.run backend happen before).run backend happen after := by
  simp [run]

end

/-! ## One step -/

section
variable {backend : Backend w o} {s : Session w o} {out : o} {world : w}

@[simp] theorem note_world (s : Session w o) (v : Event) : (s.note v).world = s.world := rfl

theorem adopt_eq (backend : Backend w o) (s : Session w o) (out : o) : ∃ events,
    s.adopt backend out = ⟨s.settings, some out, s.number + 1,
      (backend.setVolume out s.settings.volume s.world).2, events⟩ := by
  unfold adopt
  cases hv : backend.setVolume out s.settings.volume s.world with
  | mk result world =>
    cases result with
    | ok _ => exact ⟨_, rfl⟩
    | error f => exact ⟨_, rfl⟩

theorem submit_eq (backend : Backend w o) (s : Session w o) (out : o) (score : Score) :
    ∃ cs status events, s.submit backend out score = (⟨s.number, status⟩,
      ⟨s.settings, s.output, s.number, (backend.submit out cs s.world).2, events⟩) := by
  unfold submit
  simp only
  generalize Plan.score score (backend.time out s.world + s.settings.lookahead)
    s.settings.releaseTail = cs
  cases hs : backend.submit out cs s.world with
  | mk result world =>
    cases result with
    | ok _ => exact ⟨cs, _, _, by rw [hs]; rfl⟩
    | error f => exact ⟨cs, _, _, by rw [hs]; rfl⟩

theorem render_of_held (h : s.output = some out) (score : Score) :
    s.render backend score = s.submit backend out score := by
  unfold render acquire
  rw [h]

theorem render_of_created (h : s.output = none) (hc : backend.create s.world = (.ok out, world))
    (score : Score) : s.render backend score =
      (adopt backend { s with world := world } out).submit backend out score := by
  unfold render acquire
  rw [h]
  simp only [hc]

theorem render_of_refused {f : Output.Failure} (h : s.output = none)
    (hc : backend.create s.world = (.error f, world)) (score : Score) :
    s.render backend score =
      (⟨s.number, .unavailable f⟩, { s with world := world }.note (.noOutput f)) := by
  unfold render acquire
  rw [h]
  simp only [hc]

theorem stop_of_held (h : s.output = some out) (hd : Handle) : s.stop backend hd =
    { s with output := none, world := backend.close out s.world }.note
      (.stopped s.number hd.session) := by
  unfold stop release isActive
  rw [h]
  rfl

theorem stop_of_none (h : s.output = none) (hd : Handle) : s.stop backend hd = s := by
  unfold stop isActive
  rw [h]
  rfl

/-- All that a render can do: tones go to the held output or to a new one, or there is none. -/
inductive Renders (backend : Backend w o) (s : Session w o) : Handle × Session w o → Prop
  | again {out : o} (cs status events) (held : s.output = some out) :
      Renders backend s (⟨s.number, status⟩,
        ⟨s.settings, some out, s.number, (backend.submit out cs s.world).2, events⟩)
  | refused {f : Output.Failure} {world : w} (events) (held : s.output = none)
      (create : backend.create s.world = (.error f, world)) :
      Renders backend s (⟨s.number, .unavailable f⟩, ⟨s.settings, none, s.number, world, events⟩)
  | created {out : o} {world : w} (cs status events) (held : s.output = none)
      (create : backend.create s.world = (.ok out, world)) :
      Renders backend s (⟨s.number + 1, status⟩, ⟨s.settings, some out, s.number + 1,
        (backend.submit out cs (backend.setVolume out s.settings.volume world).2).2, events⟩)

theorem renders (backend : Backend w o) (s : Session w o) (score : Score) :
    Renders backend s (s.render backend score) := by
  cases ho : s.output with
  | some out =>
    obtain ⟨cs, status, events, he⟩ := submit_eq backend s out score
    rw [render_of_held ho, he, ho]
    exact .again cs status events ho
  | none =>
    cases hc : backend.create s.world with
    | mk result world =>
      cases result with
      | error f =>
        rw [render_of_refused ho hc]
        have hr := Renders.refused (s.events ++ [.noOutput f]) ho hc
        rwa [← ho] at hr
      | ok out =>
        obtain ⟨events, ha⟩ := adopt_eq backend { s with world := world } out
        obtain ⟨cs, status, events', he⟩ :=
          submit_eq backend (adopt backend { s with world := world } out) out score
        rw [render_of_created ho hc, he, ha]
        exact .created cs status events' ho hc

namespace Renders

variable {r : Handle × Session w o}

theorem session_eq (h : Renders backend s r) : r.1.session = r.2.number := by
  cases h <;> rfl

theorem settings_eq (h : Renders backend s r) : r.2.settings = s.settings := by
  cases h <;> rfl

theorem number_le (h : Renders backend s r) : s.number ≤ r.2.number := by
  cases h with
  | again => exact Nat.le_refl _
  | refused => exact Nat.le_refl _
  | created => exact Nat.le_succ _

theorem of_held (h : Renders backend s r) (ho : s.output = some out) :
    r.2.output = some out ∧ r.2.number = s.number := by
  cases h with
  | again _ _ _ held => exact ⟨held.symm.trans ho, rfl⟩
  | refused _ held =>
    rw [ho] at held
    cases held
  | created _ _ _ held =>
    rw [ho] at held
    cases held

/-- An output that is held where none was held before is a new one. -/
theorem number_lt (h : Renders backend s r) (hs : s.output = none) (ho : r.2.output = some out) :
    s.number < r.2.number := by
  cases h with
  | again _ _ _ held =>
    rw [hs] at held
    cases held
  | refused => cases ho
  | created => exact Nat.lt_succ_self _

theorem output_of_isScheduled (h : Renders backend s r) (hr : r.1.isScheduled = true) :
    ∃ out, r.2.output = some out := by
  cases h with
  | again => exact ⟨_, rfl⟩
  | refused => cases hr
  | created => exact ⟨_, rfl⟩

end Renders

theorem settings_stop (backend : Backend w o) (s : Session w o) (hd : Handle) :
    (s.stop backend hd).settings = s.settings := by
  cases ho : s.output with
  | some out => rw [stop_of_held ho]; rfl
  | none => rw [stop_of_none ho]

theorem number_stop (backend : Backend w o) (s : Session w o) (hd : Handle) :
    (s.stop backend hd).number = s.number := by
  cases ho : s.output with
  | some out => rw [stop_of_held ho]; rfl
  | none => rw [stop_of_none ho]

theorem settings_run (backend : Backend w o) (happen : e → w → w) (s : Session w o)
    (steps : List (Step e)) : (s.run backend happen steps).settings = s.settings := by
  induction steps generalizing s with
  | nil => rfl
  | cons step steps ih =>
    rw [run_cons, ih]
    cases step with
    | render score => exact (renders backend s score).settings_eq
    | stop hd => exact settings_stop backend s hd
    | apart e => rfl

end

/-! ## Session numbers -/

section
variable {backend : Backend w o} {happen : e → w → w} {s : Session w o}

theorem number_le_act (step : Step e) : s.number ≤ (s.act backend happen step).number := by
  cases step with
  | render score => exact (renders backend s score).number_le
  | stop h => exact Nat.le_of_eq (number_stop backend s h).symm
  | apart e => exact Nat.le_refl _

theorem number_le_run (steps : List (Step e)) :
    s.number ≤ (s.run backend happen steps).number := by
  induction steps generalizing s with
  | nil => exact Nat.le_refl _
  | cons step steps ih =>
    rw [run_cons]
    exact Nat.le_trans (number_le_act step) ih

theorem number_lt_act (h : s.output = none) {step : Step e} {out : o}
    (ho : (s.act backend happen step).output = some out) :
    s.number < (s.act backend happen step).number := by
  cases step with
  | render score => exact (renders backend s score).number_lt h ho
  | stop hd =>
    have ho : (s.stop backend hd).output = some out := ho
    rw [stop_of_none h, h] at ho
    cases ho
  | apart e =>
    have ho : s.output = some out := ho
    rw [h] at ho
    cases ho

theorem number_lt_run (h : s.output = none) {steps : List (Step e)} {out : o}
    (ho : (s.run backend happen steps).output = some out) :
    s.number < (s.run backend happen steps).number := by
  induction steps generalizing s with
  | nil =>
    rw [run_nil, h] at ho
    cases ho
  | cons step steps ih =>
    rw [run_cons] at ho ⊢
    cases ha : (s.act backend happen step).output with
    | none => exact Nat.lt_of_le_of_lt (number_le_act step) (ih ha ho)
    | some out' => exact Nat.lt_of_lt_of_le (number_lt_act h ha) (number_le_run steps)

def Unstopped (backend : Backend w o) (happen : e → w → w) (s : Session w o)
    (steps : List (Step e)) : Prop :=
  ∀ before h, before ++ [.stop h] <+: steps → (s.run backend happen before).output = none

theorem Unstopped.run_eq {steps : List (Step e)} (h : Unstopped backend happen s steps) {out : o}
    (ho : s.output = some out) : (s.run backend happen steps).output = some out ∧
      (s.run backend happen steps).number = s.number := by
  induction steps generalizing s with
  | nil => exact ⟨ho, rfl⟩
  | cons step steps ih =>
    have htail : Unstopped backend happen (s.act backend happen step) steps := by
      intro before hd hb
      exact h (step :: before) hd ((List.prefix_cons_inj step).mpr hb)
    rw [run_cons]
    cases step with
    | render score =>
      have hr := (renders backend s score).of_held ho
      obtain ⟨ih₁, ih₂⟩ := ih htail hr.1
      exact ⟨ih₁, ih₂.trans hr.2⟩
    | stop hd =>
      have hn : s.output = none := h [] hd ⟨steps, rfl⟩
      rw [ho] at hn
      cases hn
    | apart e => exact ih htail ho

/-- Tones of two renders went to one output just if no stop in between found one. -/
theorem session_eq_iff {a b : Score} {steps : List (Step e)} {s₁ s₂ : Session w o}
    (h₁ : s₁ = (s.render backend a).2) (h₂ : s₂ = s₁.run backend happen steps)
    (ha : (s.render backend a).1.isScheduled = true)
    (hb : (s₂.render backend b).1.isScheduled = true) :
    (s.render backend a).1.session = (s₂.render backend b).1.session ↔
      Unstopped backend happen s₁ steps := by
  have hra := renders backend s a
  have hrb := renders backend s₂ b
  obtain ⟨out, ho⟩ := hra.output_of_isScheduled ha
  obtain ⟨out', ho'⟩ := hrb.output_of_isScheduled hb
  rw [hra.session_eq, hrb.session_eq, ← h₁]
  rw [← h₁] at ho
  constructor
  · intro hn before hd hbefore
    obtain ⟨rest, rfl⟩ := hbefore
    cases hout : (s₁.run backend happen before).output with
    | none => rfl
    | some held =>
      -- from this stop on no output is held, so the later render makes one with a higher number
      have hstop : ((s₁.run backend happen before).stop backend hd).output = none := by
        rw [stop_of_held hout]
        rfl
      have hlast : ((s₁.run backend happen before).stop backend hd).run backend happen
          (rest ++ [.render b]) = (s₂.render backend b).2 := by
        rw [h₂, run_append, run_append, run_append]
        rfl
      rw [← hlast] at ho' hn
      have hle : s₁.number ≤ (s₁.run backend happen before).number := number_le_run before
      have hlt := number_lt_run hstop ho'
      rw [number_stop] at hlt
      omega
  · intro hu
    obtain ⟨hout, hn⟩ := hu.run_eq ho
    rw [← h₂] at hout hn
    rw [(hrb.of_held hout).2, hn]

end

end Session

/-! ## What outputs keep -/

/-- No call on an output breaks a property of the world. -/
structure Backend.Keeps {w o : Type} (backend : Backend w o) (p : w → Prop) : Prop where
  create {x} : p x → p (backend.create x).2
  submit {out x} (cs : List (Command Float)) : p x → p (backend.submit out cs x).2
  setVolume {out x} (v : Float32) : p x → p (backend.setVolume out v x).2
  close {out x} : p x → p (backend.close out x)

namespace Backend.Keeps

open Session

variable {w o e : Type} {backend : Backend w o} {p : w → Prop} {s : Session w o}

theorem render (h : backend.Keeps p) (hs : p s.world) (score : Score) :
    p (s.render backend score).2.world := by
  have hr := renders backend s score
  generalize s.render backend score = r at hr ⊢
  have hc := h.create hs
  cases hr with
  | again cs => exact h.submit cs hs
  | refused _ _ create =>
    rw [create] at hc
    exact hc
  | created cs _ _ _ create =>
    rw [create] at hc
    exact h.submit cs (h.setVolume _ hc)

theorem stop (h : backend.Keeps p) (hs : p s.world) (hd : Handle) :
    p (s.stop backend hd).world := by
  cases ho : s.output with
  | some out =>
    rw [stop_of_held ho]
    exact h.close hs
  | none =>
    rw [stop_of_none ho]
    exact hs

theorem run {happen : e → w → w} (h : backend.Keeps p) (hh : ∀ e x, p x → p (happen e x))
    (hs : p s.world) (steps : List (Step e)) : p (s.run backend happen steps).world := by
  induction steps generalizing s with
  | nil => exact hs
  | cons step steps ih =>
    rw [run_cons]
    apply ih
    cases step with
    | render score => exact h.render hs score
    | stop hd => exact h.stop hs hd
    | apart e => exact hh e _ hs

end Backend.Keeps

end ScoreSynth
