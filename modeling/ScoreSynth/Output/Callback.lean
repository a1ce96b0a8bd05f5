import ScoreSynth.Output.Mixer

/-!
# The audio callback

Orders wait in a ring of bounded size. Each block first carries out all orders that wait, then
renders, then publishes the frame clock.
-/

namespace ScoreSynth.Output

inductive Order where
  | schedule (b : Batch)
  | setVolume (v : Float32)
  | stop

def Mixer.obey (m : Mixer) : Order → Mixer
  | .schedule b => m.enqueue b
  | .setVolume v => m.setVolume v
  | .stop => m.clear

structure Callback where
  capacity : Nat
  /-- Oldest first. -/
  waiting : List Order
  mixer : Mixer
  clock : Nat

namespace Callback

def start (capacity : Nat) (m : Mixer) : Callback := ⟨capacity, [], m, 0⟩

/-- None, if the ring is full. -/
def push? (c : Callback) (o : Order) : Option Callback :=
  if c.waiting.length < c.capacity then some { c with waiting := c.waiting ++ [o] } else none

def process (c : Callback) (size : Nat) : Array Float32 × Callback :=
  let (block, m) := (c.waiting.foldl Mixer.obey c.mixer).fill size
  (block, { c with waiting := [], mixer := m, clock := m.frame })

end Callback

end ScoreSynth.Output
