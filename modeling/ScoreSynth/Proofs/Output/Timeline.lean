import ScoreSynth.Proofs.Output.Frames

/-!
# Timelines

What the calls on a mixer ask for, told without a queue: every tone that came, the frame at which it
came, and the frames at which it is to be heard. A tone is due at its start, or when it comes if that
is later, and is heard until its stop unless all is cleared before.
-/

namespace ScoreSynth.Output

open Sound (Voice)

inductive Call where
  | schedule (cs : List (Command Float))
  | enqueue (b : Batch)
  | reserve (tones : Nat)
  | setVolume (v : Float32)
  | clear
  | fill (size : Nat)

def Mixer.perform (m : Mixer) : Call → Mixer
  | .schedule cs => m.schedule cs
  | .enqueue b => m.enqueue b
  | .reserve tones => m.reserve tones
  | .setVolume v => m.setVolume v
  | .clear => m.clear
  | .fill size => (m.fill size).2

def Mixer.performAll (m : Mixer) (calls : List Call) : Mixer := calls.foldl perform m

/-! ## What is to be heard -/

def within (lo hi x : Float32) : Float32 := if x < lo then lo else if hi < x then hi else x

/-- The value of a frame: all its sounds added up, at the volume, and held within 0.95. -/
def mixed (sounds : List Float32) (volume : Float32) : Float32 :=
  within (-0.95) 0.95 (sounds.foldl (· + ·) 0.0 * volume)

def windowed (rate : Nat) (c : Command Float) : Entry :=
  ⟨frameAt c.start rate, max (frameAt c.stop rate) (frameAt c.start rate), c.tone⟩

theorem windowed_eq : windowed = Entry.ofCommand := rfl

theorem Batch.perm_windowed (cs : List (Command Float)) (rate : Nat) :
    (Batch.ofCommands cs rate).entries.Perm (cs.map (windowed (max rate 1))) := by
  rw [windowed_eq]
  exact (List.mergeSort_perm _ _).trans (List.reverse_perm _)

structure Arrival where
  /-- How many tones came before it. -/
  number : Nat
  /-- The mixer's frame when it came. -/
  frame : Nat
  entry : Entry

namespace Arrival

def due (a : Arrival) : Nat := max a.entry.start a.frame

def isHeard (frame : Nat) (a : Arrival) : Bool := a.due ≤ frame && frame < a.entry.stop

/-- A voice of its own, new when the tone falls due, as it stands at a frame. -/
def voiceAt (rate frame : Nat) (seed : UInt64) (a : Arrival) : Voice :=
  (Voice.ofTone a.entry.tone rate seed).after (frame - a.due)

theorem start_le_due (a : Arrival) : a.entry.start ≤ a.due := Nat.le_max_left _ _

theorem isHeard_iff {frame : Nat} {a : Arrival} :
    a.isHeard frame = true ↔ a.due ≤ frame ∧ frame < a.entry.stop := by
  simp [isHeard]

end Arrival

structure Timeline where
  rate : Nat
  channels : Nat
  frame : Nat
  /-- How many tones have come, also those that were cleared. -/
  arrived : Nat
  /-- The tones that came after the last clearing, in order. -/
  present : List Arrival
  volume : Float32

namespace Timeline

def start (rate channels : Nat) : Timeline := ⟨max rate 1, max channels 1, 0, 0, [], 1.0⟩

def arrivals (t : Timeline) (es : List Entry) : List Arrival :=
  (es.zipIdx t.arrived).map fun (e, n) => ⟨n, t.frame, e⟩

def arrive (t : Timeline) (es : List Entry) : Timeline :=
  { t with arrived := t.arrived + es.length, present := t.present ++ t.arrivals es }

/-- The tones of a batch come in the order opposite to that in which they leave a queue. -/
def perform (t : Timeline) : Call → Timeline
  | .schedule cs => t.arrive (cs.map (windowed t.rate))
  | .enqueue b => t.arrive b.entries.reverse
  | .reserve _ => t
  | .setVolume v => if v.isNaN then t else { t with volume := within 0.0 1.0 v }
  | .clear => { t with present := [] }
  | .fill size => { t with frame := t.frame + framesIn t.channels size }

def performAll (t : Timeline) (calls : List Call) : Timeline := calls.foldl perform t

/-- What is heard at a frame: one sample of each tone's own voice, `seeds` giving its seed. -/
def heard (t : Timeline) (seeds : Nat → UInt64) (frame : Nat) : List Float32 :=
  (t.present.filter (Arrival.isHeard frame)).map fun a =>
    (a.voiceAt t.rate frame (seeds a.number)).next.1

/-! ## Arrivals -/

theorem map_entry_arrivals (t : Timeline) (es : List Entry) :
    (t.arrivals es).map (·.entry) = es := by
  simp [arrivals, Function.comp_def]

theorem map_number_arrivals (t : Timeline) (es : List Entry) :
    (t.arrivals es).map (·.number) = List.range' t.arrived es.length := by
  rw [arrivals, List.map_map, ← List.zipIdx_map_snd]
  rfl

theorem frame_of_mem_arrivals {t : Timeline} {es : List Entry} {a : Arrival}
    (ha : a ∈ t.arrivals es) : a.frame = t.frame := by
  obtain ⟨p, _, rfl⟩ := List.mem_map.mp ha
  rfl

theorem number_of_mem_arrivals {t : Timeline} {es : List Entry} {a : Arrival}
    (ha : a ∈ t.arrivals es) : t.arrived ≤ a.number ∧ a.number < t.arrived + es.length := by
  have h : a.number ∈ (t.arrivals es).map (·.number) := List.mem_map_of_mem ha
  rw [map_number_arrivals, List.mem_range'_1] at h
  exact h

theorem performAll_concat (t : Timeline) (calls : List Call) (c : Call) :
    t.performAll (calls ++ [c]) = (t.performAll calls).perform c := by
  simp [performAll]

theorem performAll_append (t : Timeline) (before after : List Call) :
    t.performAll (before ++ after) = (t.performAll before).performAll after := by
  simp [performAll]

theorem perform_format (t : Timeline) (c : Call) :
    (t.perform c).rate = t.rate ∧ (t.perform c).channels = t.channels := by
  cases c with
  | setVolume v => simp only [perform]; split <;> exact ⟨rfl, rfl⟩
  | _ => exact ⟨rfl, rfl⟩

theorem performAll_format (t : Timeline) (calls : List Call) :
    (t.performAll calls).rate = t.rate ∧ (t.performAll calls).channels = t.channels := by
  induction calls generalizing t with
  | nil => exact ⟨rfl, rfl⟩
  | cons c calls ih =>
    obtain ⟨hr, hc⟩ := perform_format t c
    obtain ⟨ir, ic⟩ := ih (t.perform c)
    exact ⟨ir.trans hr, ic.trans hc⟩

end Timeline

theorem Mixer.getElem?_fill {m : Mixer} (hc : 0 < m.channels) {i size : Nat} (hi : i < size) :
    (m.fill size).1[i]? = some (mixed (m.after (i / m.channels)).sounds m.volume) := by
  rw [Array.getElem?_eq_getElem (by rwa [size_fill]), getElem_fill hc, next_fst, after_volume]
  rfl

theorem Mixer.performAll_concat (m : Mixer) (calls : List Call) (c : Call) :
    m.performAll (calls ++ [c]) = (m.performAll calls).perform c := by
  simp [performAll]

theorem Mixer.performAll_append (m : Mixer) (before after : List Call) :
    m.performAll (before ++ after) = (m.performAll before).performAll after := by
  simp [performAll]

end ScoreSynth.Output
