import ScoreSynth.Scalar

/-!
# Gain envelopes

A program of breakpoints is laid out over the length of a note and scaled to its peak. Times never
move backwards: a breakpoint that would come before its predecessor is pushed forward to it. Between
points the gain holds, or moves along a straight line or an exponential curve.
-/

namespace ScoreSynth.Sound

inductive Ramp where
  | step
  | linear
  | exponential
  deriving DecidableEq, Repr

/-- When a breakpoint happens: some seconds after onset, or after a fraction of the note. -/
inductive Offset (α : Type) where
  | seconds (s : α)
  | fraction (f : α)

structure Breakpoint (α : Type) where
  offset : Offset α
  /-- A multiple of the peak. -/
  gain : α
  ramp : Ramp

structure GainPoint (α : Type) where
  time : α
  value : α
  ramp : Ramp

structure Envelope (α : Type) where
  points : List (GainPoint α)

section
variable {α : Type} [Scalar α]
open Scalar

/-- The least gain at which an exponential ramp starts or ends. -/
def gainFloor : α := 0.0001

/-- Seconds do not pass the end of the note, and nothing comes before its onset. -/
def Offset.resolve (o : Offset α) (length : α) : α :=
  larger (match o with
    | .seconds s => smaller s length
    | .fraction f => f * length) 0.0

def Offset.ending : Offset α := .fraction 1.0

namespace Breakpoint

def step (offset : Offset α) (gain : α) : Breakpoint α := ⟨offset, gain, .step⟩

def linear (offset : Offset α) (gain : α) : Breakpoint α := ⟨offset, gain, .linear⟩

def exponential (offset : Offset α) (gain : α) : Breakpoint α := ⟨offset, gain, .exponential⟩

/-- The gain from onset on. -/
def onset (gain : α) : Breakpoint α := step (.seconds 0.0) gain

def resolve (b : Breakpoint α) (length peak last : α) : GainPoint α :=
  let value := b.gain * peak
  { time := larger (b.offset.resolve length) last
    value := if b.ramp = .exponential then larger value gainFloor else value
    ramp := b.ramp }

/-- The points of a program, none of them before `last`. -/
def resolveAll (length peak : α) : α → List (Breakpoint α) → List (GainPoint α)
  | _, [] => []
  | last, b :: bs =>
    let p := b.resolve length peak last
    p :: resolveAll length peak p.time bs

end Breakpoint

namespace Envelope

def resolve (program : List (Breakpoint α)) (length peak : α) : Envelope α :=
  ⟨Breakpoint.resolveAll length peak 0.0 program⟩

section
variable {m : Type → Type} [Monad m] (divide : α → α → m α)

/-- The gain on the way from one value to the next, `progress` running from 0 to 1. -/
def blendBy (ramp : Ramp) (previous next progress : α) : m α :=
  match ramp with
  | .step => pure previous
  | .linear => pure (previous + (next - previous) * progress)
  | .exponential => do
    let start := larger previous gainFloor
    let target := larger next gainFloor
    let ratio ← divide target start
    return start * power ratio progress

/-- The gain at `t`, given the time and value of the point before. -/
def valueFromBy (t : α) : α → α → List (GainPoint α) → m α
  | _, previous, [] => pure previous
  | since, previous, p :: ps =>
    if below t p.time then do
      let progress ← divide (t - since) (p.time - since)
      blendBy divide p.ramp previous p.value (clamp 0.0 1.0 progress)
    else valueFromBy t p.time p.value ps

/-- Silent before the onset, and holding the last value after the last point. -/
def valueBy (e : Envelope α) (t : α) : m α :=
  if below t 0.0 then pure 0.0 else valueFromBy divide t 0.0 0.0 e.points

end

def valueAt (e : Envelope α) (t : α) : α := Id.run (valueBy (fun x y => pure (x / y)) e t)

end Envelope

end

end ScoreSynth.Sound
