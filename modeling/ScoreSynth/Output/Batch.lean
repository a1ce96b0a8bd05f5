import ScoreSynth.Number.Binary
import ScoreSynth.Plan

/-!
# Batches

Tones with their starts and stops counted in frames, ready to be queued. A batch is in the order in
which its tones leave a queue: by start, and of tones with one start the last given comes first.
-/

namespace ScoreSynth.Output

/-- The frame nearest to a time; a time before zero counts as zero. -/
def frameAt (seconds : Float) (rate : Nat) : Nat :=
  Number.count (largerFloat seconds 0.0 * Float.ofNat rate)

structure Entry where
  start : Nat
  stop : Nat
  tone : Sound.Tone Float

namespace Entry

/-- A stop before the start moves to it. -/
def ofCommand (rate : Nat) (c : Command Float) : Entry :=
  let start := frameAt c.start rate
  ⟨start, max (frameAt c.stop rate) start, c.tone⟩

def notLater (a b : Entry) : Bool := a.start ≤ b.start

end Entry

/-- Sorts by start; entries with one start keep their order. -/
def sortByStart (es : List Entry) : List Entry := es.mergeSort Entry.notLater

structure Batch where
  entries : List Entry

def Batch.ofCommands (cs : List (Command Float)) (rate : Nat) : Batch :=
  ⟨sortByStart (cs.map (Entry.ofCommand (max rate 1))).reverse⟩

end ScoreSynth.Output
