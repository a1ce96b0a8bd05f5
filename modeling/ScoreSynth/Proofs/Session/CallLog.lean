import ScoreSynth.Plan

/-!
# Logs of the calls on outputs

A log tells in order which outputs were asked for and what each of them was told to do. In an orderly
log an output is asked for only while none is open, gets its volume first, then any number of tones,
and is closed once; so whatever part of the log has been written, at most one output is open.
-/

namespace ScoreSynth

inductive Use where
  | volume (v : Float32)
  | submit (cs : List (Command Float))
  | close

def Use.isVolume : Use → Bool
  | .volume _ => true
  | _ => false

def Use.isClose : Use → Bool
  | .close => true
  | _ => false

inductive Mark where
  /-- An output was asked for; there is no number if none was created. -/
  | create (made : Option Nat)
  | use (number : Nat) (u : Use)

namespace Mark

def isCreate : Mark → Bool
  | .create _ => true
  | .use _ _ => false

def made? : Mark → Option Nat
  | .create made => made
  | .use _ _ => none

def useOf? (n : Nat) : Mark → Option Use
  | .create _ => none
  | .use number u => if number = n then some u else none

end Mark

namespace CallLog

def asked (log : List Mark) : Nat := log.countP Mark.isCreate

def made (log : List Mark) : List Nat := log.filterMap Mark.made?

def created (log : List Mark) : Nat := (made log).length

def usesOf (n : Nat) (log : List Mark) : List Use := log.filterMap (Mark.useOf? n)

def isClosed (n : Nat) (log : List Mark) : Bool := (usesOf n log).any Use.isClose

def opened (log : List Mark) : List Nat := (made log).filter fun n => !isClosed n log

def isReady (n : Nat) (log : List Mark) : Bool :=
  (usesOf n log).any Use.isVolume && !isClosed n log

/-! ## Orderly logs -/

inductive Phase where
  | fresh
  | ready
  /-- Also the phase before any output is created. -/
  | closed

/-- The log of so many outputs, each of which had its life before the next was asked for. -/
inductive Orderly (volume : Float32) : Phase → Nat → List Mark → Prop
  | start : Orderly volume .closed 0 []
  | refused {k log} : Orderly volume .closed k log →
      Orderly volume .closed k (log ++ [.create none])
  | created {k log} : Orderly volume .closed k log →
      Orderly volume .fresh (k + 1) (log ++ [.create (some k)])
  | volume {k log} : Orderly volume .fresh (k + 1) log →
      Orderly volume .ready (k + 1) (log ++ [.use k (.volume volume)])
  | submit {k log} (cs : List (Command Float)) : Orderly volume .ready (k + 1) log →
      Orderly volume .ready (k + 1) (log ++ [.use k (.submit cs)])
  | close {k log} : Orderly volume .ready (k + 1) log →
      Orderly volume .closed (k + 1) (log ++ [.use k .close])

def Ready (volume : Float32) (us : List Use) : Prop :=
  ∃ batches : List (List (Command Float)), us = .volume volume :: batches.map Use.submit

/-- The volume, then tones, then one closing: the whole life of an output. -/
def Whole (volume : Float32) (us : List Use) : Prop :=
  ∃ batches : List (List (Command Float)),
    us = .volume volume :: (batches.map Use.submit ++ [.close])

def Phase.Told (volume : Float32) (us : List Use) : Phase → Prop
  | .fresh => us = []
  | .ready => Ready volume us
  | .closed => Whole volume us

section
variable {v : Float32} {phase : Phase} {k n : Nat} {log : List Mark} {us : List Use}

theorem made_concat (log : List Mark) (m : Mark) : made (log ++ [m]) = made log ++ m.made?.toList := by
  unfold made
  rw [List.filterMap_append]
  cases h : m.made? <;> simp [h]

theorem usesOf_concat (n : Nat) (log : List Mark) (m : Mark) :
    usesOf n (log ++ [m]) = usesOf n log ++ (m.useOf? n).toList := by
  unfold usesOf
  rw [List.filterMap_append]
  cases h : m.useOf? n <;> simp [h]

theorem usesOf_concat_self (n : Nat) (log : List Mark) (u : Use) :
    usesOf n (log ++ [.use n u]) = usesOf n log ++ [u] := by
  rw [usesOf_concat]
  simp [Mark.useOf?]

theorem usesOf_concat_ne {i : Nat} (h : i ≠ n) (log : List Mark) (u : Use) :
    usesOf n (log ++ [.use i u]) = usesOf n log := by
  rw [usesOf_concat]
  simp [Mark.useOf?, h]

theorem usesOf_concat_create (n : Nat) (log : List Mark) (m : Option Nat) :
    usesOf n (log ++ [.create m]) = usesOf n log := by
  rw [usesOf_concat]
  simp [Mark.useOf?]

theorem Ready.any_isVolume (h : Ready v us) : us.any Use.isVolume = true := by
  obtain ⟨batches, rfl⟩ := h
  rfl

theorem Ready.any_isClose (h : Ready v us) : us.any Use.isClose = false := by
  obtain ⟨batches, rfl⟩ := h
  simp [Use.isClose]

theorem Whole.any_isClose (h : Whole v us) : us.any Use.isClose = true := by
  obtain ⟨batches, rfl⟩ := h
  simp [Use.isClose]

theorem Ready.submit (h : Ready v us) (cs : List (Command Float)) :
    Ready v (us ++ [.submit cs]) := by
  obtain ⟨batches, rfl⟩ := h
  exact ⟨batches ++ [cs], by simp⟩

theorem Ready.close (h : Ready v us) : Whole v (us ++ [.close]) := by
  obtain ⟨batches, rfl⟩ := h
  exact ⟨batches, rfl⟩

namespace Orderly

theorem made_eq (h : Orderly v phase k log) : made log = List.range k := by
  induction h with
  | start => rfl
  | refused _ ih => rw [made_concat, ih]; simp [Mark.made?]
  | created _ ih => rw [made_concat, ih, List.range_succ]; rfl
  | volume _ ih => rw [made_concat, ih]; simp [Mark.made?]
  | submit _ _ ih => rw [made_concat, ih]; simp [Mark.made?]
  | close _ ih => rw [made_concat, ih]; simp [Mark.made?]

theorem created_eq (h : Orderly v phase k log) : CallLog.created log = k := by
  unfold CallLog.created
  rw [h.made_eq, List.length_range]

theorem uses_concat (phase : Phase) {u : Use}
    (hnone : ∀ n, k + 1 ≤ n → usesOf n log = [])
    (hwhole : ∀ n, n + 1 < k + 1 → Whole v (usesOf n log))
    (hnow : phase.Told v (usesOf k log ++ [u])) :
    (∀ n, k + 1 ≤ n → usesOf n (log ++ [.use k u]) = []) ∧
      (∀ n, n + 1 < k + 1 → Whole v (usesOf n (log ++ [.use k u]))) ∧
      (∀ n, n + 1 = k + 1 → phase.Told v (usesOf n (log ++ [.use k u]))) := by
  refine ⟨fun n hn => ?_, fun n hn => ?_, fun n hn => ?_⟩
  · rw [usesOf_concat_ne (by omega)]
    exact hnone n hn
  · rw [usesOf_concat_ne (by omega)]
    exact hwhole n hn
  · obtain rfl := Nat.succ.inj hn
    rw [usesOf_concat_self]
    exact hnow

/-- Outputs to come were told nothing, former ones had their life, and the newest is in its phase. -/
theorem uses (h : Orderly v phase k log) : (∀ n, k ≤ n → usesOf n log = []) ∧
    (∀ n, n + 1 < k → Whole v (usesOf n log)) ∧
    (∀ n, n + 1 = k → phase.Told v (usesOf n log)) := by
  induction h with
  | start => exact ⟨fun _ _ => rfl, fun n hn => by omega, fun n hn => by omega⟩
  | refused _ ih => simpa only [usesOf_concat_create] using ih
  | created _ ih =>
    obtain ⟨hnone, hwhole, hnow⟩ := ih
    simp only [usesOf_concat_create]
    refine ⟨fun n hn => hnone n (by omega), fun n hn => ?_, fun n hn => ?_⟩
    · rcases Nat.lt_or_ge (n + 1) _ with hlt | hge
      · exact hwhole n hlt
      · exact hnow n (by omega)
    · exact hnone n (by omega)
  | @volume k log _ ih =>
    obtain ⟨hnone, hwhole, hnow⟩ := ih
    have hfresh : usesOf k log = [] := hnow k rfl
    refine uses_concat .ready hnone hwhole ?_
    rw [hfresh]
    exact ⟨[], rfl⟩
  | submit cs _ ih =>
    obtain ⟨hnone, hwhole, hnow⟩ := ih
    exact uses_concat .ready hnone hwhole (Ready.submit (hnow _ rfl) cs)
  | close _ ih =>
    obtain ⟨hnone, hwhole, hnow⟩ := ih
    exact uses_concat .closed hnone hwhole (Ready.close (hnow _ rfl))

theorem isReady (h : Orderly v .ready (n + 1) log) : CallLog.isReady n log = true := by
  have hr : Ready v (usesOf n log) := h.uses.2.2 n rfl
  unfold CallLog.isReady isClosed
  rw [hr.any_isVolume, hr.any_isClose]
  rfl

theorem length_opened (h : Orderly v phase k log) : (opened log).length ≤ 1 := by
  obtain ⟨-, hwhole, -⟩ := h.uses
  unfold opened
  rw [h.made_eq]
  cases k with
  | zero => simp
  | succ k =>
    have hformer : (List.range k).filter (fun n => !isClosed n log) = [] := by
      rw [List.filter_eq_nil_iff]
      intro n hn
      have hc := (hwhole n (by rw [List.mem_range] at hn; omega)).any_isClose
      simp [isClosed, hc]
    rw [List.range_succ, List.filter_append, hformer, List.nil_append]
    exact List.length_filter_le _ _

theorem of_prefix_concat {m : Mark} {part : List Mark} (h : Orderly v phase k (log ++ [m]))
    (ih : part <+: log → ∃ phase' k', Orderly v phase' k' part) (hp : part <+: log ++ [m]) :
    ∃ phase' k', Orderly v phase' k' part := by
  rcases List.prefix_concat_iff.mp hp with rfl | hp
  · exact ⟨phase, k, h⟩
  · exact ih hp

/-- What has been written of an orderly log at any time is orderly. -/
theorem of_prefix (h : Orderly v phase k log) {part : List Mark} (hp : part <+: log) :
    ∃ phase' k', Orderly v phase' k' part := by
  induction h with
  | start =>
    rw [List.prefix_nil.mp hp]
    exact ⟨_, _, .start⟩
  | refused h ih => exact h.refused.of_prefix_concat ih hp
  | created h ih => exact h.created.of_prefix_concat ih hp
  | volume h ih => exact h.volume.of_prefix_concat ih hp
  | submit cs h ih => exact (h.submit cs).of_prefix_concat ih hp
  | close h ih => exact h.close.of_prefix_concat ih hp

end Orderly

end

/-- How outputs lived one after the other, told by a log that nothing is added to any more. -/
structure OneByOne (volume : Float32) (log : List Mark) : Prop where
  one_open : ∀ part, part <+: log → (opened part).length ≤ 1
  unused_before : ∀ part, part <+: log → ∀ n, created part ≤ n → usesOf n part = []
  whole : ∀ n < created log, Whole volume (usesOf n log)

theorem Orderly.oneByOne {v : Float32} {k : Nat} {log : List Mark} (h : Orderly v .closed k log) :
    OneByOne v log where
  one_open := by
    intro part hp
    obtain ⟨phase, j, hj⟩ := h.of_prefix hp
    exact hj.length_opened
  unused_before := by
    intro part hp n hn
    obtain ⟨phase, j, hj⟩ := h.of_prefix hp
    exact hj.uses.1 n (by rwa [hj.created_eq] at hn)
  whole := by
    intro n hn
    rw [h.created_eq] at hn
    obtain ⟨-, hwhole, hnow⟩ := h.uses
    rcases Nat.lt_or_eq_of_le (Nat.succ_le_of_lt hn) with hlt | heq
    · exact hwhole n hlt
    · exact hnow n heq

end CallLog

end ScoreSynth
