import ScoreSynth.Scalar
import ScoreSynth.Sound.Angle

/-!
# Filters

A second-order filter in single precision, kept in the transposed direct form with two delayed
values. The cutoff is held between 10 Hz and 0.45 of the sample rate; a rate so low that even 10 Hz
lies above half of it leaves the signal as it is.
-/

namespace ScoreSynth.Sound

inductive FilterKind where
  | lowPass
  | highPass
  | bandPass
  | allPass
  deriving DecidableEq, Repr

structure FilterSpec (α : Type) where
  kind : FilterKind
  cutoff : α
  q : α

def leastCutoff : Float := 10.0

def leastQ : Float := 0.01

structure Coefficients where
  b0 : Float32
  b1 : Float32
  b2 : Float32
  a1 : Float32
  a2 : Float32

namespace Coefficients

def ofAngle (kind : FilterKind) (angle q : Float32) : Coefficients :=
  let s := sine angle
  let c := cosine angle
  let alpha := s / (2.0 * q)
  let a0 := 1.0 + alpha
  let a1 := -2.0 * c
  let a2 := 1.0 - alpha
  match kind with
  | .lowPass =>
    let b := (1.0 - c) * 0.5
    ⟨b / a0, (1.0 - c) / a0, b / a0, a1 / a0, a2 / a0⟩
  | .highPass =>
    let b := (1.0 + c) * 0.5
    ⟨b / a0, -(1.0 + c) / a0, b / a0, a1 / a0, a2 / a0⟩
  | .bandPass =>
    let b := s / 2.0
    let scale := 1.0 / a0
    ⟨b * scale, 0.0 * scale, -b * scale, a1 * scale, a2 * scale⟩
  | .allPass => ⟨(1.0 - alpha) / a0, (-2.0 * c) / a0, (1.0 + alpha) / a0, a1 / a0, a2 / a0⟩

/-- None if the cutoff passes half the sample rate. -/
def ofSpec? (spec : FilterSpec Float) (rate : Nat) : Option Coefficients :=
  let sampled := Float.ofNat (max rate 1)
  let cutoff :=
    Scalar.clamp leastCutoff (largerFloat (sampled * 0.45) leastCutoff) spec.cutoff
  let q := (largerFloat spec.q leastQ).toFloat32
  let fs := sampled.toFloat32
  let f0 := cutoff.toFloat32
  if 2.0 * f0 > fs then none else some (ofAngle spec.kind (2.0 * 3.1415927 * f0 / fs) q)

end Coefficients

/-- Coefficients, if the signal is changed at all, and the two delayed values. -/
structure Filter where
  coefficients : Option Coefficients
  first : Float32
  second : Float32

namespace Filter

def bypass : Filter := ⟨none, 0.0, 0.0⟩

def ofSpec (spec : FilterSpec Float) (rate : Nat) : Filter :=
  ⟨Coefficients.ofSpec? spec rate, 0.0, 0.0⟩

def isBypassed (f : Filter) : Bool := f.coefficients.isNone

def next (f : Filter) (x : Float32) : Float32 × Filter :=
  match f.coefficients with
  | none => (x, f)
  | some c =>
    let y := f.first + c.b0 * x
    (y, { f with first := f.second + c.b1 * x - c.a1 * y, second := c.b2 * x - c.a2 * y })

end Filter

end ScoreSynth.Sound
