import Mathlib.Algebra.Ring.Nat
import ScoreSynth.Output.Callback
import ScoreSynth.Proofs.Output.Window

/-!
# Orders to a callback

Orders wait in the ring until the next block, but nothing is rendered in between, so an accepted
order acts as if it were obeyed at once and a refused one as if it had never been given. What a
callback renders is therefore told by the timeline of its accepted orders.
-/

namespace ScoreSynth.Output

inductive Action where
  | push (o : Order)
  /-- A block of this many interleaved values. -/
  | process (size : Nat)

def Order.call : Order → Call
  | .schedule b => .enqueue b
  | .setVolume v => .setVolume v
  | .stop => .clear

theorem Mixer.obey_eq_perform (m : Mixer) (o : Order) : m.obey o = m.perform o.call := by
  cases o <;> rfl

def Action.frames (channels : Nat) : Action → Nat
  | .push _ => 0
  | .process size => framesIn channels size

def Call.volume? : Call → Option Float32
  | .setVolume v => if v.isNaN then none else some v
  | _ => none

def lastVolume (calls : List Call) : Float32 :=
  ((calls.filterMap Call.volume?).getLast?.map (within 0.0 1.0)).getD 1.0

namespace Callback

/-- A refused order leaves the callback as it is. -/
def act (c : Callback) : Action → Callback
  | .push o => (c.push? o).getD c
  | .process size => (c.process size).2

def actAll (c : Callback) (actions : List Action) : Callback := actions.foldl act c

def calls (c : Callback) : Action → List Call
  | .push o => if (c.push? o).isSome then [o.call] else []
  | .process size => [.fill size]

def allCalls (c : Callback) : List Action → List Call
  | [] => []
  | a :: actions => c.calls a ++ (c.act a).allCalls actions

/-- The mixer once all that waits is carried out. -/
def drained (c : Callback) : Mixer := c.waiting.foldl Mixer.obey c.mixer

theorem process_eq (c : Callback) (size : Nat) :
    c.process size = ((c.drained.fill size).1,
      ⟨c.capacity, [], (c.drained.fill size).2, (c.drained.fill size).2.frame⟩) := rfl

theorem drained_of_push? {c c' : Callback} {o : Order} (h : c.push? o = some c') :
    c'.drained = c.drained.obey o := by
  unfold push? at h
  split at h
  · cases h; simp [drained]
  · cases h

theorem drained_act (c : Callback) (a : Action) :
    (c.act a).drained = c.drained.performAll (c.calls a) := by
  cases a with
  | push o =>
    simp only [act, calls]
    cases hp : c.push? o with
    | none => rfl
    | some c' =>
      have hd : c'.drained = c.drained.perform o.call := by
        rw [drained_of_push? hp, Mixer.obey_eq_perform]
      simpa [Mixer.performAll] using hd
  | process size => rfl

theorem drained_actAll (c : Callback) (actions : List Action) :
    (c.actAll actions).drained = c.drained.performAll (c.allCalls actions) := by
  induction actions generalizing c with
  | nil => rfl
  | cons a actions ih =>
    rw [allCalls, Mixer.performAll_append, ← drained_act]
    exact ih (c.act a)

theorem allCalls_append (c : Callback) (before after : List Action) :
    c.allCalls (before ++ after) = c.allCalls before ++ (c.actAll before).allCalls after := by
  induction before generalizing c with
  | nil => rfl
  | cons a before ih =>
    simp only [List.cons_append, allCalls, ih, List.append_assoc]
    rfl

theorem allCalls_process_prefix (c : Callback) {before actions : List Action} {size : Nat}
    (h : before ++ [.process size] <+: actions) :
    c.allCalls before ++ [.fill size] <+: c.allCalls actions := by
  obtain ⟨after, rfl⟩ := h
  rw [List.append_assoc, allCalls_append]
  exact ⟨((c.actAll before).act (.process size)).allCalls after, by simp [allCalls, calls]⟩

end Callback

namespace Timeline

theorem volume_performAll_start (rate channels : Nat) (calls : List Call) :
    ((start rate channels).performAll calls).volume = lastVolume calls := by
  induction calls using List.reverseRecOn with
  | nil => rfl
  | append_singleton calls c ih =>
    rw [performAll_concat, lastVolume, List.filterMap_append]
    cases c with
    | setVolume v =>
      simp only [perform, List.filterMap_cons, Call.volume?]
      split
      · simp only [List.filterMap_nil, List.append_nil]; exact ih
      · simp
    | _ => simp only [perform, List.filterMap_cons, Call.volume?, List.filterMap_nil,
        List.append_nil]; exact ih

theorem frame_perform (t : Timeline) (c : Callback) (a : Action) :
    (t.performAll (c.calls a)).frame = t.frame + a.frames t.channels := by
  cases a with
  | push o =>
    simp only [Callback.calls]
    split
    · cases o with
      | setVolume v => simp only [Order.call, performAll, List.foldl, perform]; split <;> rfl
      | _ => rfl
    · rfl
  | process size => rfl

theorem frame_performAll (t : Timeline) (c : Callback) (actions : List Action) :
    (t.performAll (c.allCalls actions)).frame =
      t.frame + (actions.map (Action.frames t.channels)).sum := by
  induction actions generalizing c t with
  | nil => rfl
  | cons a actions ih =>
    have hc : (t.performAll (c.calls a)).channels = t.channels := (performAll_format t _).2
    rw [Callback.allCalls, performAll_append, ih, frame_perform, hc, List.map_cons, List.sum_cons,
      Nat.add_assoc]

end Timeline

/--
In any order of pushes and blocks, each block mixes one sample for each tone whose order was accepted
after the last accepted stop and whose window holds the frame, at the volume of the last accepted
order with a number; a tone comes at the frame at which the block begins that carries out its order.
The clock counts the frames of all blocks so far. A batch holds the windows of its tones, and a desk
that gets the accepted orders stands where the callback renders from.
-/
theorem stop_silences_and_later_tones_sound (capacity rate channels : Nat) (seed : UInt64)
    (actions : List Action) :
    let c₀ := Callback.start capacity (Mixer.start rate channels seed)
    (∃ seeds : Nat → UInt64, ∀ before size, before ++ [.process size] <+: actions →
      let c := c₀.actAll before
      let t := (Timeline.start rate channels).performAll (c₀.allCalls before)
      (c.process size).2.clock =
          ((before ++ [Action.process size]).map (Action.frames (max channels 1))).sum ∧
        (c.process size).1.size = size ∧
        (∀ i < size,
          ((c.drained.after (i / max channels 1)).sounds).Perm
              (t.heard seeds (t.frame + i / max channels 1)) ∧
            (c.process size).1[i]? =
              some (mixed (c.drained.after (i / max channels 1)).sounds
                (lastVolume (c₀.allCalls before)))) ∧
        ∀ requests, requests.map Request.call = c₀.allCalls before →
          ((Desk.start rate channels seed).performAll requests).Mirrors c.drained) ∧
      ∀ cs ownRate,
        (Batch.ofCommands cs ownRate).entries.Perm (cs.map (windowed (max ownRate 1))) := by
  intro c₀
  obtain ⟨seeds, hs⟩ := exists_seeds rate channels seed (c₀.allCalls actions)
  refine ⟨⟨seeds, fun before size hb => ?_⟩, Batch.perm_windowed⟩
  intro c t
  have hd : c.drained = (Mixer.start rate channels seed).performAll (c₀.allCalls before) :=
    c₀.drained_actAll before
  obtain ⟨p, hf⟩ := performAll_start_follows rate channels seed (c₀.allCalls before)
  have hframe : t.frame = (before.map (Action.frames (max channels 1))).sum := by
    have h := (Timeline.start rate channels).frame_performAll c₀ before
    rwa [show (Timeline.start rate channels).frame = 0 from rfl, Nat.zero_add] at h
  rw [Callback.process_eq, hd]
  refine ⟨?_, Mixer.size_fill _ _, fun i hi => ⟨?_, ?_⟩, fun requests hrequests => ?_⟩
  · show (((Mixer.start rate channels seed).performAll _).fill size).2.frame = _
    rw [Mixer.fill_frame, channels_performAll_start, hf.frame, List.map_append, List.sum_append]
    exact congrArg₂ (· + ·) hframe rfl
  · exact hs _ size (c₀.allCalls_process_prefix hb) _ (div_lt_framesIn (channels_pos channels) hi)
  · rw [← Timeline.volume_performAll_start rate channels]
    exact getElem?_block rate channels seed _ hi
  · rw [← hrequests]
    exact Desk.mirrors_performAll rate channels seed requests

end ScoreSynth.Output
