import ScoreSynth.Proofs.Number.Exact
import ScoreSynth.Sound.Envelope

/-!
# The course of an envelope

In exact arithmetic the points of an envelope come in order of time, however its breakpoints fall
together on a short note. The gain at a time is told by the last point reached and the first to come;
no time lies between two points that coincide, so no ramp is ever divided by a length of zero.
-/

namespace ScoreSynth.Sound

open Scalar (larger smaller below clamp power)

theorem gainFloor_pos : 0 < (gainFloor : ℝ) := by
  show (0 : ℝ) < 0.0001
  norm_num

theorem Offset.resolve_nonneg (o : Offset ℝ) (length : ℝ) : 0 ≤ o.resolve length := by
  have hzero : (0.0 : ℝ) = 0 := by norm_num
  have hle : (0.0 : ℝ) ≤ o.resolve length := le_max_right _ _
  rwa [hzero] at hle

/-! ## Points -/

namespace Breakpoint

variable {length peak last : ℝ}

theorem length_resolveAll (last : ℝ) (program : List (Breakpoint ℝ)) :
    (resolveAll length peak last program).length = program.length := by
  induction program generalizing last with
  | nil => rfl
  | cons b program ih => simp [resolveAll, ih]

theorem le_time_resolveAll {program : List (Breakpoint ℝ)} :
    ∀ p ∈ resolveAll length peak last program, last ≤ p.time := by
  induction program generalizing last with
  | nil => simp [resolveAll]
  | cons b program ih =>
    have hfirst : last ≤ (b.resolve length peak last).time := le_max_right _ _
    intro p hp
    rcases List.mem_cons.mp hp with rfl | hp
    · exact hfirst
    · exact hfirst.trans (ih p hp)

theorem pairwise_resolveAll (program : List (Breakpoint ℝ)) :
    (resolveAll length peak last program).Pairwise fun p q => p.time ≤ q.time := by
  induction program generalizing last with
  | nil => exact .nil
  | cons b program ih => exact List.pairwise_cons.mpr ⟨le_time_resolveAll, ih⟩

theorem value_resolveAll_nonneg {program : List (Breakpoint ℝ)} (hpeak : 0 ≤ peak)
    (hgain : ∀ b ∈ program, 0 ≤ b.gain) : ∀ p ∈ resolveAll length peak last program, 0 ≤ p.value := by
  induction program generalizing last with
  | nil => simp [resolveAll]
  | cons b program ih =>
    have hb : 0 ≤ b.gain * peak := mul_nonneg (hgain b List.mem_cons_self) hpeak
    intro p hp
    rcases List.mem_cons.mp hp with rfl | hp
    · simp only [resolve]
      split
      · exact hb.trans (le_max_left _ _)
      · exact hb
    · exact ih (fun c hc => hgain c (List.mem_cons_of_mem b hc)) p hp

/-- Each point is as late as the latest breakpoint up to its own, or as the time before them all. -/
theorem time_resolveAll {program : List (Breakpoint ℝ)} {i : Nat} {b : Breakpoint ℝ}
    {p : GainPoint ℝ} (hb : program[i]? = some b)
    (hp : (resolveAll length peak last program)[i]? = some p) : p.ramp = b.ramp ∧
      (∀ c ∈ program.take (i + 1), c.offset.resolve length ≤ p.time) ∧
      (p.time = last ∨ ∃ c ∈ program.take (i + 1), c.offset.resolve length = p.time) := by
  induction program generalizing last i with
  | nil => cases hb
  | cons a program ih =>
    cases i with
    | zero =>
      obtain rfl := Option.some.inj hb
      obtain rfl := Option.some.inj hp
      refine ⟨rfl, ?_, ?_⟩
      · intro c hc
        obtain rfl : c = a := by simpa using hc
        exact le_max_left _ _
      · rcases max_choice (a.offset.resolve length) last with h | h
        · exact .inr ⟨a, by simp, h.symm⟩
        · exact .inl h
    | succ i =>
      have hrest : (resolveAll length peak (a.resolve length peak last).time program)[i]? = some p := hp
      have hle : (a.resolve length peak last).time ≤ p.time :=
        le_time_resolveAll p (List.mem_of_getElem? hrest)
      obtain ⟨hramp, hupper, hreached⟩ := ih hb hrest
      refine ⟨hramp, ?_, ?_⟩
      · intro c hc
        rcases List.mem_cons.mp hc with rfl | hc
        · exact (le_max_left _ _).trans hle
        · exact hupper c hc
      · rcases hreached with h | ⟨c, hc, h⟩
        · -- pushed forward to the point of the breakpoint before
          rcases max_choice (a.offset.resolve length) last with hmax | hmax
          · exact .inr ⟨a, List.mem_cons_self, (h.trans hmax).symm⟩
          · exact .inl (h.trans hmax)
        · exact .inr ⟨c, List.mem_cons_of_mem a hc, h⟩

/-- A point has the gain of its breakpoint at the peak, but for an exponential one below the floor. -/
theorem value_resolveAll {program : List (Breakpoint ℝ)} {i : Nat} {b : Breakpoint ℝ}
    {p : GainPoint ℝ} (hb : program[i]? = some b)
    (hp : (resolveAll length peak last program)[i]? = some p) :
    p.value = if b.ramp = .exponential then max (b.gain * peak) gainFloor else b.gain * peak := by
  induction program generalizing last i with
  | nil => cases hb
  | cons a program ih =>
    cases i with
    | zero =>
      obtain rfl := Option.some.inj hb
      obtain rfl := Option.some.inj hp
      rfl
    | succ i => exact ih hb hp

/-- From the onset on, the time of a point is the running maximum of the offsets. -/
theorem isGreatest_resolveAll {program : List (Breakpoint ℝ)} {i : Nat} {b : Breakpoint ℝ}
    {p : GainPoint ℝ} (hb : program[i]? = some b)
    (hp : (resolveAll length peak 0 program)[i]? = some p) :
    IsGreatest {time | ∃ c ∈ program.take (i + 1), c.offset.resolve length = time} p.time := by
  obtain ⟨-, hupper, hreached⟩ := time_resolveAll hb hp
  constructor
  · rcases hreached with hzero | hreached
    · -- no offset is before the onset, so all of them up to here are at it
      have hmem : b ∈ program.take (i + 1) := by
        apply List.mem_of_getElem? (i := i)
        rw [List.getElem?_take_of_lt (Nat.lt_succ_self i), hb]
      have hle := hupper b hmem
      rw [hzero] at hle
      exact ⟨b, hmem, (le_antisymm hle (b.offset.resolve_nonneg length)).trans hzero.symm⟩
    · exact hreached
  · rintro - ⟨c, hc, rfl⟩
    exact hupper c hc

end Breakpoint

/-! ## Ramps -/

namespace Envelope

noncomputable def blend (ramp : Ramp) (previous next progress : ℝ) : ℝ :=
  Id.run (blendBy (fun x y => pure (x / y)) ramp previous next progress)

section
variable {previous next progress : ℝ}

theorem blend_linear_mem (h0 : 0 ≤ progress) (h1 : progress ≤ 1) :
    blend .linear previous next progress ∈ Set.uIcc previous next := by
  rw [← segment_eq_uIcc]
  refine ⟨1 - progress, progress, by linarith, h0, by ring, ?_⟩
  show (1 - progress) * previous + progress * next = previous + (next - previous) * progress
  ring

/-- Between two levels above zero, an exponential ramp runs through powers of their ratio. -/
theorem mul_rpow_mem {a b : ℝ} (ha : 0 < a) (hb : 0 < b) (h0 : 0 ≤ progress) (h1 : progress ≤ 1) :
    a * (b / a) ^ progress ∈ Set.uIcc a b := by
  have hend : a * (b / a) = b := mul_div_cancel₀ b ha.ne'
  rcases le_total a b with hab | hba
  · have hratio : 1 ≤ b / a := (one_le_div ha).mpr hab
    have hlow : 1 ≤ (b / a) ^ progress := Real.one_le_rpow hratio h0
    have hhigh : (b / a) ^ progress ≤ b / a := by
      simpa using Real.rpow_le_rpow_of_exponent_le hratio h1
    rw [Set.uIcc_of_le hab]
    constructor
    · exact le_mul_of_one_le_right ha.le hlow
    · calc a * (b / a) ^ progress ≤ a * (b / a) := mul_le_mul_of_nonneg_left hhigh ha.le
        _ = b := hend
  · have hpos : 0 < b / a := div_pos hb ha
    have hratio : b / a ≤ 1 := (div_le_one ha).mpr hba
    have hhigh : (b / a) ^ progress ≤ 1 := Real.rpow_le_one hpos.le hratio h0
    have hlow : b / a ≤ (b / a) ^ progress := by
      simpa using Real.rpow_le_rpow_of_exponent_ge hpos hratio h1
    rw [Set.uIcc_of_ge hba]
    constructor
    · calc b = a * (b / a) := hend.symm
        _ ≤ a * (b / a) ^ progress := mul_le_mul_of_nonneg_left hlow ha.le
    · exact mul_le_of_le_one_right ha.le hhigh

theorem blend_exponential_mem (h0 : 0 ≤ progress) (h1 : progress ≤ 1) :
    blend .exponential previous next progress ∈
      Set.uIcc (max previous gainFloor) (max next gainFloor) :=
  mul_rpow_mem (lt_max_of_lt_right gainFloor_pos) (lt_max_of_lt_right gainFloor_pos) h0 h1

theorem blend_nonneg {ramp : Ramp} (hprevious : 0 ≤ previous) (hnext : 0 ≤ next)
    (h0 : 0 ≤ progress) (h1 : progress ≤ 1) : 0 ≤ blend ramp previous next progress := by
  cases ramp with
  | step => exact hprevious
  | linear => exact (le_min hprevious hnext).trans (blend_linear_mem h0 h1).1
  | exponential =>
    have hfloor : ∀ x : ℝ, 0 ≤ max x gainFloor := fun x => gainFloor_pos.le.trans (le_max_right _ _)
    exact (le_min (hfloor _) (hfloor _)).trans (blend_exponential_mem h0 h1).1

end

/-! ## Dividing with care -/

noncomputable def quotient? (x y : ℝ) : Option ℝ := if y = 0 then none else some (x / y)

noncomputable def valueFrom (t since previous : ℝ) (points : List (GainPoint ℝ)) : ℝ :=
  Id.run (valueFromBy (fun x y => pure (x / y)) t since previous points)

/-- The gain at `t`, or none if anything is divided by zero on the way to it. -/
noncomputable def valueAt? (e : Envelope ℝ) (t : ℝ) : Option ℝ := valueBy quotient? e t

theorem below_iff {x y : ℝ} : below x y = true ↔ x < y := decide_eq_true_iff

theorem quotient?_of_ne {x y : ℝ} (h : y ≠ 0) : quotient? x y = some (x / y) := if_neg h

theorem blendBy_quotient? (ramp : Ramp) (previous next progress : ℝ) :
    blendBy quotient? ramp previous next progress = some (blend ramp previous next progress) := by
  cases ramp with
  | step => rfl
  | linear => rfl
  | exponential =>
    have hstart : larger previous gainFloor ≠ 0 := (lt_max_of_lt_right gainFloor_pos).ne'
    unfold blendBy
    simp only
    rw [quotient?_of_ne hstart]
    rfl

theorem valueFrom_cons (t since previous : ℝ) (p : GainPoint ℝ) (points : List (GainPoint ℝ)) :
    valueFrom t since previous (p :: points) =
      if below t p.time then
        blend p.ramp previous p.value (clamp 0.0 1.0 ((t - since) / (p.time - since)))
      else valueFrom t p.time p.value points := by
  unfold valueFrom
  rw [valueFromBy]
  split <;> rfl

/-- A ramp that is under way has a length. -/
theorem valueFromBy_quotient? {t since : ℝ} (h : since ≤ t) (previous : ℝ)
    (points : List (GainPoint ℝ)) :
    valueFromBy quotient? t since previous points = some (valueFrom t since previous points) := by
  induction points generalizing since previous with
  | nil => rfl
  | cons p points ih =>
    rw [valueFromBy, valueFrom_cons]
    by_cases ht : t < p.time
    · have hspan : p.time - since ≠ 0 := by linarith
      rw [if_pos (below_iff.mpr ht), if_pos (below_iff.mpr ht), quotient?_of_ne hspan]
      exact blendBy_quotient? _ _ _ _
    · rw [if_neg (mt below_iff.mp ht), if_neg (mt below_iff.mp ht)]
      exact ih (not_lt.mp ht) p.value

/-! ## Reaching a time -/

noncomputable def onset : GainPoint ℝ := ⟨0, 0, .step⟩

noncomputable def lastReached (t : ℝ) (before : GainPoint ℝ) (points : List (GainPoint ℝ)) :
    GainPoint ℝ :=
  (points.filter fun p => p.time ≤ t).getLast?.getD before

noncomputable def reached (e : Envelope ℝ) (t : ℝ) : GainPoint ℝ := lastReached t onset e.points

noncomputable def next? (e : Envelope ℝ) (t : ℝ) : Option (GainPoint ℝ) :=
  e.points.find? fun p => t < p.time

section
variable {t : ℝ} {before : GainPoint ℝ} {points : List (GainPoint ℝ)}

theorem lastReached_cons_of_le {p : GainPoint ℝ} (h : p.time ≤ t) :
    lastReached t before (p :: points) = lastReached t p points := by
  unfold lastReached
  rw [List.filter_cons_of_pos (by simpa using h), List.getLast?_cons]
  rfl

theorem lastReached_of_lt (h : ∀ p ∈ points, t < p.time) : lastReached t before points = before := by
  unfold lastReached
  rw [List.filter_eq_nil_iff.mpr (by simpa using h)]
  rfl

theorem lastReached_cases (t : ℝ) (before : GainPoint ℝ) (points : List (GainPoint ℝ)) :
    lastReached t before points = before ∨
      lastReached t before points ∈ points ∧ (lastReached t before points).time ≤ t := by
  unfold lastReached
  cases h : (points.filter fun p => p.time ≤ t).getLast? with
  | none => exact .inl rfl
  | some p =>
    have hp := List.mem_filter.mp (List.mem_of_getLast? h)
    exact .inr ⟨hp.1, by simpa using hp.2⟩

/-- Points in order of time are passed one by one until the next would be too late. -/
theorem valueFrom_eq (h : points.Pairwise fun p q => p.time ≤ q.time) :
    valueFrom t before.time before.value points =
      match points.find? (fun p => t < p.time) with
      | none => (lastReached t before points).value
      | some p =>
        blend p.ramp (lastReached t before points).value p.value (clamp 0.0 1.0
          ((t - (lastReached t before points).time) /
            (p.time - (lastReached t before points).time))) := by
  induction points generalizing before with
  | nil => rfl
  | cons p points ih =>
    obtain ⟨hp, hpoints⟩ := List.pairwise_cons.mp h
    rw [valueFrom_cons]
    by_cases ht : t < p.time
    · have hlate : ∀ q ∈ p :: points, t < q.time := by
        intro q hq
        rcases List.mem_cons.mp hq with rfl | hq
        · exact ht
        · exact ht.trans_le (hp q hq)
      rw [if_pos (below_iff.mpr ht), List.find?_cons_of_pos (by simpa using ht),
        lastReached_of_lt hlate]
    · rw [if_neg (mt below_iff.mp ht), List.find?_cons_of_neg (by simpa using ht),
        lastReached_cons_of_le (not_lt.mp ht)]
      exact ih hpoints

theorem clamp_of_mem {x : ℝ} (h0 : 0 ≤ x) (h1 : x ≤ 1) : clamp 0.0 1.0 x = x := by
  have hlow : ¬below x 0.0 = true := by
    rw [below_iff]
    norm_num
    exact h0
  have hhigh : ¬below 1.0 x = true := by
    rw [below_iff]
    norm_num
    exact h1
  unfold clamp
  rw [if_neg hlow, if_neg hhigh]

end

section
variable {e : Envelope ℝ} {t : ℝ} {p : GainPoint ℝ}

theorem valueAt_eq (e : Envelope ℝ) (t : ℝ) :
    e.valueAt t = if below t 0.0 then 0.0 else valueFrom t 0.0 0.0 e.points := by
  unfold valueAt valueBy
  split <;> rfl

theorem valueAt_of_neg (ht : t < 0) : e.valueAt t = 0 := by
  have hzero : (0.0 : ℝ) = 0 := by norm_num
  rw [valueAt_eq, if_pos (below_iff.mpr (by rwa [hzero]))]
  exact hzero

theorem valueAt_eq_valueFrom (ht : 0 ≤ t) :
    e.valueAt t = valueFrom t onset.time onset.value e.points := by
  have hzero : (0.0 : ℝ) = 0 := by norm_num
  rw [valueAt_eq, if_neg (mt below_iff.mp (by rw [hzero]; exact not_lt.mpr ht)), hzero]
  rfl

theorem valueAt?_eq (e : Envelope ℝ) (t : ℝ) : e.valueAt? t = some (e.valueAt t) := by
  rw [valueAt_eq]
  unfold valueAt? valueBy
  by_cases ht : t < (0.0 : ℝ)
  · rw [if_pos (below_iff.mpr ht), if_pos (below_iff.mpr ht)]
    rfl
  · rw [if_neg (mt below_iff.mp ht), if_neg (mt below_iff.mp ht)]
    exact valueFromBy_quotient? (not_lt.mp ht) _ _

theorem reached_of_neg (htime : ∀ p ∈ e.points, 0 ≤ p.time) (ht : t < 0) : e.reached t = onset :=
  lastReached_of_lt fun p hp => ht.trans_le (htime p hp)

theorem time_reached_le (ht : 0 ≤ t) : (e.reached t).time ≤ t := by
  unfold reached
  rcases lastReached_cases t onset e.points with h | ⟨-, h⟩
  · rw [h]
    exact ht
  · exact h

variable (hordered : e.points.Pairwise fun p q => p.time ≤ q.time)
include hordered

theorem valueAt_of_next?_none (ht : 0 ≤ t) (hnext : e.next? t = none) :
    e.valueAt t = (e.reached t).value := by
  unfold next? at hnext
  rw [valueAt_eq_valueFrom ht, valueFrom_eq hordered, hnext]
  rfl

/-- On the way to a point, the gain is blended from the one reached. -/
theorem valueAt_of_next? (ht : 0 ≤ t) (hnext : e.next? t = some p) : ∃ progress, 0 ≤ progress ∧
    progress ≤ 1 ∧ e.valueAt t = blend p.ramp (e.reached t).value p.value progress := by
  have hreached : (e.reached t).time ≤ t := time_reached_le ht
  have hlate : t < p.time := by simpa using List.find?_some hnext
  have hspan : 0 < p.time - (e.reached t).time := by linarith
  have h0 : 0 ≤ (t - (e.reached t).time) / (p.time - (e.reached t).time) :=
    div_nonneg (by linarith) hspan.le
  have h1 : (t - (e.reached t).time) / (p.time - (e.reached t).time) ≤ 1 := by
    rw [div_le_one hspan]
    linarith
  refine ⟨_, h0, h1, ?_⟩
  unfold next? at hnext
  rw [valueAt_eq_valueFrom ht, valueFrom_eq hordered, hnext, ← clamp_of_mem h0 h1]
  rfl

/-- Until a point is reached, the gain is told by the one before and by the ramp that leads to it. -/
theorem valueAt_of_ramp (ht : 0 ≤ t) (hnext : e.next? t = some p) :
    (p.ramp = .step → e.valueAt t = (e.reached t).value) ∧
      (p.ramp = .linear → e.valueAt t ∈ Set.uIcc (e.reached t).value p.value) ∧
      (p.ramp = .exponential → e.valueAt t ∈
        Set.uIcc (max (e.reached t).value gainFloor) (max p.value gainFloor)) := by
  obtain ⟨progress, h0, h1, heq⟩ := valueAt_of_next? hordered ht hnext
  rw [heq]
  refine ⟨fun hramp => ?_, fun hramp => ?_, fun hramp => ?_⟩
  · rw [hramp]
    rfl
  · rw [hramp]
    exact blend_linear_mem h0 h1
  · rw [hramp]
    exact blend_exponential_mem h0 h1

theorem valueAt_nonneg (hvalue : ∀ p ∈ e.points, 0 ≤ p.value) (t : ℝ) : 0 ≤ e.valueAt t := by
  by_cases ht : t < 0
  · rw [valueAt_of_neg ht]
  · have ht : 0 ≤ t := not_lt.mp ht
    have hreached : 0 ≤ (e.reached t).value := by
      unfold reached
      rcases lastReached_cases t onset e.points with h | ⟨h, -⟩
      · rw [h]
        exact le_refl 0
      · exact hvalue _ h
    cases hnext : e.next? t with
    | none =>
      rw [valueAt_of_next?_none hordered ht hnext]
      exact hreached
    | some p =>
      obtain ⟨progress, h0, h1, heq⟩ := valueAt_of_next? hordered ht hnext
      rw [heq]
      exact blend_nonneg hreached (hvalue p (List.mem_of_find?_eq_some hnext)) h0 h1

end

/--
For each breakpoint there is a point, with its ramp and its gain at the peak, at the latest of the
offsets up to its own, so times never go down and none is before the onset. The gain is silence before the onset and nowhere
below it; it is the gain of the last point reached if the next is a step or there is none, lies
between the gains of the two points on a linear ramp, and between these gains or the floor, where
that is higher, on an exponential one. No division on the way to it is by zero.
-/
theorem resolve_ordered_and_bounded (program : List (Breakpoint ℝ)) (length peak : ℝ)
    (hpeak : 0 ≤ peak) (hgain : ∀ b ∈ program, 0 ≤ b.gain) :
    let e := Envelope.resolve program length peak
    e.points.length = program.length ∧
      (∀ i b p, program[i]? = some b → e.points[i]? = some p → p.ramp = b.ramp ∧
        (p.value = if b.ramp = .exponential then max (b.gain * peak) gainFloor
          else b.gain * peak) ∧
        IsGreatest {time | ∃ c ∈ program.take (i + 1), c.offset.resolve length = time} p.time) ∧
      (∀ p ∈ e.points, 0 ≤ p.time) ∧ e.points.Pairwise (fun p q => p.time ≤ q.time) ∧
      ∀ t, e.valueAt? t = some (e.valueAt t) ∧ 0 ≤ e.valueAt t ∧ (t < 0 → e.valueAt t = 0) ∧
        (e.next? t = none → e.valueAt t = (e.reached t).value) ∧
        ∀ p, e.next? t = some p →
          (p.ramp = .step → e.valueAt t = (e.reached t).value) ∧
          (p.ramp = .linear → e.valueAt t ∈ Set.uIcc (e.reached t).value p.value) ∧
          (p.ramp = .exponential → 0 ≤ t → e.valueAt t ∈
            Set.uIcc (max (e.reached t).value gainFloor) (max p.value gainFloor)) := by
  intro e
  have hzero : (0.0 : ℝ) = 0 := by norm_num
  have hpoints : e.points = Breakpoint.resolveAll length peak 0 program := by
    show Breakpoint.resolveAll length peak (0.0 : ℝ) program = _
    rw [hzero]
  have htime : ∀ p ∈ e.points, 0 ≤ p.time := by
    rw [hpoints]
    exact Breakpoint.le_time_resolveAll
  have hordered : e.points.Pairwise fun p q => p.time ≤ q.time := by
    rw [hpoints]
    exact Breakpoint.pairwise_resolveAll program
  have hvalue : ∀ p ∈ e.points, 0 ≤ p.value := by
    rw [hpoints]
    exact Breakpoint.value_resolveAll_nonneg hpeak hgain
  refine ⟨?_, fun i b p hb hp => ?_, htime, hordered, fun t => ?_⟩
  · rw [hpoints]
    exact Breakpoint.length_resolveAll 0 program
  · rw [hpoints] at hp
    exact ⟨(Breakpoint.time_resolveAll hb hp).1, Breakpoint.value_resolveAll hb hp,
      Breakpoint.isGreatest_resolveAll hb hp⟩
  · refine ⟨valueAt?_eq e t, valueAt_nonneg hordered hvalue t, valueAt_of_neg, ?_⟩
    by_cases ht : t < 0
    · have hreached : e.reached t = onset := reached_of_neg htime ht
      rw [valueAt_of_neg ht, hreached]
      refine ⟨fun _ => rfl, fun p _ => ⟨fun _ => rfl, fun _ => Set.left_mem_uIcc, ?_⟩⟩
      exact fun _ h0 => absurd h0 (not_le.mpr ht)
    · have ht : 0 ≤ t := not_lt.mp ht
      refine ⟨valueAt_of_next?_none hordered ht, fun p hnext => ?_⟩
      obtain ⟨hstep, hlinear, hexponential⟩ := valueAt_of_ramp hordered ht hnext
      exact ⟨hstep, hlinear, fun hramp _ => hexponential hramp⟩

/-- On a note shorter than its rise, a swell has all points but the first at the end of the note. -/
theorem resolve_ordered_and_bounded_swell :
    let swell : List (Breakpoint ℝ) := [.step (.seconds 0) 0, .linear (.seconds 2) 3,
      .step (.fraction (1 / 2)) 1, .linear (.fraction 1) 0]
    ((0 : ℝ) ≤ 2 ∧ ∀ b ∈ swell, 0 ≤ b.gain) ∧
      (resolve swell 1 2).points.map (·.time) = [0, 1, 1, 1] ∧
      (resolve swell 1 2).valueAt 1 = 0 ∧
      (resolve swell 1 2).valueAt (1 / 2) ∈ Set.uIcc 0 6 := by
  intro swell
  have hgain : ∀ b ∈ swell, 0 ≤ b.gain := by
    simp [swell, Breakpoint.step, Breakpoint.linear]
  have hpoints : (resolve swell 1 2).points =
      [⟨0, 0, .step⟩, ⟨1, 6, .linear⟩, ⟨1, 2, .step⟩, ⟨1, 0, .linear⟩] := by
    simp [resolve, Breakpoint.resolveAll, Breakpoint.resolve, Offset.resolve, larger, smaller,
      swell, Breakpoint.step, Breakpoint.linear]
    norm_num
  have hend : (resolve swell 1 2).next? 1 = none ∧
      ((resolve swell 1 2).reached 1).value = 0 := by
    simp [next?, reached, lastReached, hpoints]
  have hrise : (resolve swell 1 2).next? (1 / 2) = some ⟨1, 6, .linear⟩ ∧
      ((resolve swell 1 2).reached (1 / 2)).value = 0 := by
    rw [next?, reached, lastReached, hpoints]
    norm_num
  obtain ⟨-, -, -, -, hvalue⟩ := resolve_ordered_and_bounded swell 1 2 zero_le_two hgain
  refine ⟨⟨zero_le_two, hgain⟩, by simp [hpoints], ?_, ?_⟩
  · rw [(hvalue 1).2.2.2.1 hend.1, hend.2]
  · rw [← hrise.2]
    exact ((hvalue (1 / 2)).2.2.2.2 _ hrise.1).2.1 rfl

end Envelope

end ScoreSynth.Sound
