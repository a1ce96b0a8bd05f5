import ScoreSynth.Output.Offline
import ScoreSynth.Proofs.Output.Sorting
import ScoreSynth.Proofs.Output.Timeline

/-!
# Mixing desks

A desk is a mixer as it lies in memory. Its queue is held latest first, so that the next due tone can
be taken from the end, one at a time. A batch comes in the same order: an empty queue takes it over or
is filled with it, any other is sorted again with the batch behind it. None of this can be told from
outside: read backwards, the queue of a desk is that of the mixer.
-/

namespace ScoreSynth.Output

open Sound (Voice)

/-- What is asked of a desk; `room` is how many tones its queue can hold without moving. -/
inductive Request where
  | schedule (room : Nat) (cs : List (Command Float))
  | enqueue (room : Nat) (cs : List (Command Float)) (rate : Nat)
  | reserve (tones : Nat)
  | setVolume (v : Float32)
  | clear
  | fill (size : Nat)

def Request.call : Request → Call
  | .schedule _ cs => .schedule cs
  | .enqueue _ cs rate => .enqueue (Batch.ofCommands cs rate)
  | .reserve tones => .reserve tones
  | .setVolume v => .setVolume v
  | .clear => .clear
  | .fill size => .fill size

def Mixer.begin (m : Mixer) (e : Entry) : Mixer :=
  { m with
    sounding := m.sounding ++ [⟨Voice.ofTone e.tone m.rate (m.seed + 1), e.stop⟩]
    seed := m.seed + 1 }

def stack (cs : List (Command Float)) (rate : Nat) : List Entry :=
  latestFirst (cs.map (Entry.ofCommand (max rate 1)))

structure Desk where
  /-- Latest first. -/
  pending : List Entry
  /-- All but the queue. -/
  mixer : Mixer

namespace Desk

def start (rate channels : Nat) (seed : UInt64) : Desk := ⟨[], .start rate channels seed⟩

def enqueue (room : Nat) (d : Desk) (batch : List Entry) : Desk :=
  let wasEmpty := d.pending.isEmpty
  if wasEmpty && room < batch.length then { d with pending := batch }
  else
    let grown := d.pending ++ batch
    { d with pending := if wasEmpty then grown else latestFirst grown }

def schedule (room : Nat) (d : Desk) (cs : List (Command Float)) : Desk :=
  d.enqueue room (stack cs d.mixer.rate)

def reserve (d : Desk) (_tones : Nat) : Desk := d

def setVolume (d : Desk) (v : Float32) : Desk := { d with mixer := d.mixer.setVolume v }

def clear (d : Desk) : Desk := ⟨[], d.mixer.clear⟩

def startNext? (d : Desk) : Option Desk :=
  match d.pending.getLast? with
  | none => none
  | some e => if e.start ≤ d.mixer.frame then some ⟨d.pending.dropLast, d.mixer.begin e⟩ else none

theorem startNext?_shrinks {d d' : Desk} (h : d.startNext? = some d') :
    d'.pending.length < d.pending.length := by
  unfold startNext? at h
  split at h
  · cases h
  · rename_i e he
    have hne : d.pending ≠ [] := by intro hnil; rw [hnil] at he; cases he
    have hpos := List.length_pos_iff.mpr hne
    split at h
    · cases h; simp only [List.length_dropLast]; omega
    · cases h

def startDue (d : Desk) : Desk :=
  match _h : d.startNext? with
  | none => d
  | some d' => d'.startDue
termination_by d.pending.length
decreasing_by exact startNext?_shrinks _h

def next (d : Desk) : Float32 × Desk :=
  let d := d.startDue
  let (x, m) := d.mixer.dropStopped.mix
  (x, { d with mixer := m })

def run : Nat → Desk → Array Float32 → Array Float32 × Desk
  | 0, d, out => (out, d)
  | n + 1, d, out =>
    let (x, d) := d.next
    run n d (out.push x)

def fill (d : Desk) (size : Nat) : Array Float32 × Desk :=
  let (frames, next) := run ((size + d.mixer.channels - 1) / d.mixer.channels) d #[]
  (Mixer.interleave d.mixer.channels size frames, next)

def perform (d : Desk) : Request → Desk
  | .schedule room cs => d.schedule room cs
  | .enqueue room cs rate => d.enqueue room (stack cs rate)
  | .reserve tones => d.reserve tones
  | .setVolume v => d.setVolume v
  | .clear => d.clear
  | .fill size => (d.fill size).2

def performAll (d : Desk) (requests : List Request) : Desk := requests.foldl perform d

def view (d : Desk) : Mixer := { d.mixer with queue := d.pending.reverse }

end Desk

/-! ## Leaving the queue -/

namespace Mixer

theorem startDue_of_not_due {m : Mixer} (h : m.due = []) : m.startDue = m := by
  have hq : m.queue.dropWhile (fun e => e.start ≤ m.frame) = m.queue := by
    have := List.takeWhile_append_dropWhile (p := fun e : Entry => e.start ≤ m.frame) (l := m.queue)
    rwa [show m.queue.takeWhile _ = [] from h, List.nil_append] at this
  simp [startDue, h, hq, voices]

theorem startDue_of_due {m : Mixer} {e : Entry} {q : List Entry} (hq : m.queue = e :: q)
    (he : e.start ≤ m.frame) : m.startDue = ({ m with queue := q }.begin e).startDue := by
  have hdue : m.due = e :: ({ m with queue := q }.begin e).due := by
    rw [due, hq, List.takeWhile_cons_of_pos (by simpa using he)]; rfl
  simp only [startDue, hdue, hq, voices, begin, List.append_assoc, List.singleton_append,
    List.length_cons]
  congr 1
  · rw [List.dropWhile_cons_of_pos (by simpa using he)]; rfl
  · rw [Nat.add_comm, UInt64.ofNat_add, UInt64.ofNat_one, UInt64.add_assoc]

end Mixer

namespace Desk

theorem due_of_startNext?_none {d : Desk} (h : d.startNext? = none) : d.view.due = [] := by
  unfold startNext? at h
  split at h
  · rename_i hnil
    simp [Mixer.due, view, List.getLast?_eq_none_iff.mp hnil]
  · rename_i e he
    obtain ⟨es, hes⟩ := List.getLast?_eq_some_iff.mp he
    split at h
    · cases h
    · rename_i hlate
      simp [Mixer.due, view, hes, hlate]

theorem queue_of_startNext? {d d' : Desk} (h : d.startNext? = some d') :
    ∃ e, d.view.queue = e :: d'.view.queue ∧ e.start ≤ d.mixer.frame ∧
      d'.mixer = d.mixer.begin e := by
  unfold startNext? at h
  split at h
  · cases h
  · rename_i e he
    obtain ⟨es, hes⟩ := List.getLast?_eq_some_iff.mp he
    split at h
    · rename_i hdue
      cases h
      exact ⟨e, by simp [view, hes], hdue, rfl⟩
    · cases h

/-- Tones taken from the end one by one are those that head the queue read backwards. -/
theorem startDue_view (d : Desk) : d.startDue.view = d.view.startDue := by
  fun_induction startDue d with
  | case1 d h => rw [Mixer.startDue_of_not_due (due_of_startNext?_none h)]
  | case2 d d' h ih =>
    obtain ⟨e, hq, he, hm⟩ := queue_of_startNext? h
    rw [ih, Mixer.startDue_of_due hq he]
    simp only [view, hm]
    rfl

theorem next_view (d : Desk) : (d.next.1, d.next.2.view) = d.view.next := by
  rw [Mixer.next, ← startDue_view]
  rfl

theorem run_view (n : Nat) (d : Desk) (out : Array Float32) :
    ((run n d out).1, (run n d out).2.view) = Mixer.run n d.view out := by
  induction n generalizing d out with
  | zero => rfl
  | succ n ih =>
    simp only [run, Mixer.run, ← next_view]
    exact ih d.next.2 (out.push d.next.1)

/-- A desk gives the samples of the mixer that it is. -/
theorem fill_view (d : Desk) (size : Nat) :
    ((d.fill size).1, (d.fill size).2.view) = d.view.fill size := by
  have h := run_view ((size + d.mixer.channels - 1) / d.mixer.channels) d #[]
  simp only [fill, Mixer.fill]
  rw [show d.view.channels = d.mixer.channels from rfl, ← h]

/-! ## Joining the queue -/

theorem reverse_stack (cs : List (Command Float)) (rate : Nat) :
    (stack cs rate).reverse = (Batch.ofCommands cs rate).entries := by
  rw [stack, latestFirst_eq_reverse, List.reverse_reverse]
  rfl

theorem enqueue_mixer (room : Nat) (d : Desk) (batch : List Entry) :
    (d.enqueue room batch).mixer = d.mixer := by
  unfold enqueue; dsimp only; split <;> rfl

/-- However a batch joins the queue, it might as well have been sorted into it. -/
theorem enqueue_view (room : Nat) (d : Desk) (cs : List (Command Float)) (rate : Nat) :
    (d.enqueue room (stack cs rate)).view = d.view.enqueue (Batch.ofCommands cs rate) := by
  have hsorted : sortByStart (Batch.ofCommands cs rate).entries = (Batch.ofCommands cs rate).entries :=
    (inOrder_sortByStart _).sortByStart
  have hqueue : (d.enqueue room (stack cs rate)).pending.reverse =
      sortByStart ((Batch.ofCommands cs rate).entries ++ d.pending.reverse) := by
    by_cases hempty : d.pending = []
    · -- taken over or filled in, the batch is the whole queue and in order already
      have hpending : (d.enqueue room (stack cs rate)).pending = stack cs rate := by
        unfold enqueue; simp only [hempty]; split <;> rfl
      rw [hpending, hempty, reverse_stack, List.reverse_nil, List.append_nil, hsorted]
    · have hpending : (d.enqueue room (stack cs rate)).pending =
          latestFirst (d.pending ++ stack cs rate) := by
        unfold enqueue; simp [hempty]
      rw [hpending, latestFirst_eq_reverse, List.reverse_reverse, List.reverse_append, reverse_stack]
  simp only [view, Mixer.enqueue, hqueue, enqueue_mixer]

/-! ## Requests -/

theorem perform_view (d : Desk) (r : Request) : (d.perform r).view = d.view.perform r.call := by
  cases r with
  | schedule room cs => exact enqueue_view room d cs d.mixer.rate
  | enqueue room cs rate => exact enqueue_view room d cs rate
  | reserve tones => rfl
  | setVolume v =>
    simp only [perform, setVolume, Request.call, Mixer.perform, Mixer.setVolume, view]
    split <;> rfl
  | clear => rfl
  | fill size => exact congrArg Prod.snd (fill_view d size)

/-- Whatever is asked of a desk, it stays the mixer of which the same is asked. -/
theorem performAll_view (d : Desk) (requests : List Request) :
    (d.performAll requests).view = d.view.performAll (requests.map Request.call) := by
  induction requests generalizing d with
  | nil => rfl
  | cons r requests ih =>
    show ((d.perform r).performAll requests).view = _
    rw [ih, perform_view]
    rfl

theorem ext_view {d d' : Desk} (hview : d.view = d'.view) (hmixer : d.mixer = d'.mixer) : d = d' := by
  have hqueue : d.pending.reverse = d'.pending.reverse := congrArg Mixer.queue hview
  cases d; cases d'
  simp_all

/-! ## Desks in place of mixers -/

/-- The desk stands where the mixer stands, and gives what it gives. -/
structure Mirrors (d : Desk) (m : Mixer) : Prop where
  view_eq : d.view = m
  fill_eq : ∀ size, (d.fill size).1 = (m.fill size).1

theorem mirrors_performAll (rate channels : Nat) (seed : UInt64) (requests : List Request) :
    ((start rate channels seed).performAll requests).Mirrors
      ((Mixer.start rate channels seed).performAll (requests.map Request.call)) := by
  have hview : ((start rate channels seed).performAll requests).view =
      (Mixer.start rate channels seed).performAll (requests.map Request.call) :=
    performAll_view _ requests
  refine ⟨hview, fun size => ?_⟩
  rw [← hview]
  exact congrArg Prod.fst (fill_view _ size)

end Desk

namespace Mixer

variable {rate channels : Nat} {seed : UInt64} {m : Mixer}

/-- What was asked brings a desk where the mixer stands, whatever room the queue had. -/
def OnDesk (rate channels : Nat) (seed : UInt64) (m : Mixer) : Prop :=
  ∃ asked : List Request, ∀ requests, requests.map Request.call = asked.map Request.call →
    ((Desk.start rate channels seed).performAll requests).Mirrors m

theorem onDesk_iff : m.OnDesk rate channels seed ↔
    ∃ asked : List Request, m = (start rate channels seed).performAll (asked.map Request.call) := by
  constructor
  · rintro ⟨asked, h⟩
    have hasked := h asked rfl
    exact ⟨asked, hasked.view_eq.symm.trans (Desk.mirrors_performAll _ _ _ asked).view_eq⟩
  · rintro ⟨asked, rfl⟩
    refine ⟨asked, fun requests h => ?_⟩
    rw [← h]
    exact Desk.mirrors_performAll rate channels seed requests

theorem onDesk_start : (start rate channels seed).OnDesk rate channels seed :=
  onDesk_iff.mpr ⟨[], rfl⟩

theorem OnDesk.perform (h : m.OnDesk rate channels seed) (r : Request) :
    (m.perform r.call).OnDesk rate channels seed := by
  obtain ⟨asked, rfl⟩ := onDesk_iff.mp h
  refine onDesk_iff.mpr ⟨asked ++ [r], ?_⟩
  rw [List.map_append, List.map_singleton, performAll_concat]

end Mixer

namespace Offline

variable {rate channels : Nat} {seed : UInt64} {o o' : Offline}

theorem onDesk_submit (h : o.mixer.OnDesk rate channels seed) {cs : List (Command Float)}
    (hs : o.submit cs = .ok o') : o'.mixer.OnDesk rate channels seed := by
  unfold submit at hs
  split at hs
  · cases hs
  · cases hs; exact h.perform (.schedule 0 cs)

theorem onDesk_setVolume (h : o.mixer.OnDesk rate channels seed) {v : Float32}
    (hs : o.setVolume v = .ok o') : o'.mixer.OnDesk rate channels seed := by
  unfold setVolume at hs
  split at hs
  · cases hs
  · cases hs; exact h.perform (.setVolume v)

theorem onDesk_renderFrames (h : o.mixer.OnDesk rate channels seed) (frames : Nat) :
    (o.renderFrames frames).2.mixer.OnDesk rate channels seed :=
  h.perform (.fill (frames * o.mixer.channels))

end Offline

end ScoreSynth.Output
