import ScoreSynth.Output.Batch
import ScoreSynth.Sound.Voice

/-!
# The mixer

Tones wait in a queue until their start frame and sound until their stop frame; the sum of all that
sound is scaled by the volume and held within 0.95. A tone that leaves the queue gets its voice with
the next seed, even if its stop has passed already.
-/

namespace ScoreSynth.Output

open Sound (Voice)

structure Sounding where
  voice : Voice
  stop : Nat

structure Mixer where
  rate : Nat
  channels : Nat
  /-- Frames rendered so far. -/
  frame : Nat
  /-- By start, the next due first. -/
  queue : List Entry
  sounding : List Sounding
  volume : Float32
  seed : UInt64

def limit : Float32 := 0.95

/-- Moves a value that lies outside an interval to the end it passed. -/
def clampSample (lo hi x : Float32) : Float32 := if x < lo then lo else if hi < x then hi else x

namespace Mixer

/-- A rate or channel count of zero counts as one. -/
def start (rate channels : Nat) (seed : UInt64) : Mixer :=
  ⟨max rate 1, max channels 1, 0, [], [], 1.0, seed⟩

def isIdle (m : Mixer) : Bool := m.queue.isEmpty && m.sounding.isEmpty

def stops (m : Mixer) : List Nat := m.queue.map (·.stop) ++ m.sounding.map (·.stop)

/-- The frame at which the last tone held stops, or the current frame if that is later. -/
def endFrame (m : Mixer) : Nat := m.stops.foldl max m.frame

/-- New tones come before queued tones with the same start. -/
def enqueue (m : Mixer) (b : Batch) : Mixer :=
  { m with queue := sortByStart (b.entries ++ m.queue) }

def schedule (m : Mixer) (cs : List (Command Float)) : Mixer :=
  m.enqueue (Batch.ofCommands cs m.rate)

/-- The queue grows as it must, so room asked for in advance changes nothing. -/
def reserve (m : Mixer) (_tones : Nat) : Mixer := m

/-- Within 0 and 1; what is no number is ignored. -/
def setVolume (m : Mixer) (v : Float32) : Mixer :=
  if v.isNaN then m else { m with volume := clampSample 0.0 1.0 v }

/-- Silences everything; the clock goes on from where it is. -/
def clear (m : Mixer) : Mixer := { m with queue := [], sounding := [] }

def due (m : Mixer) : List Entry := m.queue.takeWhile fun e => e.start ≤ m.frame

/-- The voices of entries that leave the queue one after the other, the first after `seed`. -/
def voices (rate : Nat) : UInt64 → List Entry → List Sounding
  | _, [] => []
  | seed, e :: es => ⟨Voice.ofTone e.tone rate (seed + 1), e.stop⟩ :: voices rate (seed + 1) es

def startDue (m : Mixer) : Mixer :=
  { m with
    queue := m.queue.dropWhile fun e => e.start ≤ m.frame
    sounding := m.sounding ++ voices m.rate m.seed m.due
    seed := m.seed + UInt64.ofNat m.due.length }

def dropStopped (m : Mixer) : Mixer :=
  { m with sounding := m.sounding.filter fun s => m.frame < s.stop }

def sum (xs : List Float32) : Float32 := xs.foldl (· + ·) 0.0

/-- The next sample of all voices, mixed, and the mixer one frame on. -/
def mix (m : Mixer) : Float32 × Mixer :=
  let steps := m.sounding.map fun s => (s.voice.next, s.stop)
  (clampSample (-limit) limit (sum (steps.map (·.1.1)) * m.volume),
    { m with
      frame := m.frame + 1
      sounding := steps.map fun (v, stop) => ⟨v.2, stop⟩ })

def next (m : Mixer) : Float32 × Mixer := m.startDue.dropStopped.mix

def run : Nat → Mixer → Array Float32 → Array Float32 × Mixer
  | 0, m, out => (out, m)
  | n + 1, m, out =>
    let (x, m) := m.next
    run n m (out.push x)

/-- Every channel of a frame carries its sample; the last frame may be cut short. -/
def interleave (channels size : Nat) (frames : Array Float32) : Array Float32 :=
  Array.ofFn fun i : Fin size => frames.getD (i / channels) 0.0

/-- `size` interleaved values, with a frame begun for every `channels` of them. -/
def fill (m : Mixer) (size : Nat) : Array Float32 × Mixer :=
  let (frames, next) := run ((size + m.channels - 1) / m.channels) m #[]
  (interleave m.channels size frames, next)

/-- The tones that leave the queue before a frame, in order, if none is added until then. -/
def leavingBefore (m : Mixer) (frame : Nat) : List Entry :=
  m.queue.takeWhile fun e => e.start < frame

end Mixer

end ScoreSynth.Output
