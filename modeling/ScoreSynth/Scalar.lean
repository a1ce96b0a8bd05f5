/-!
# Scalars

Timing and gain are written over any type with these operations, so one and the same definition runs
on floats and can be reasoned about in exact arithmetic. A scalar literal such as `0.3` means the
exact decimal in the one and the nearest float in the other.
-/

namespace ScoreSynth

class Scalar (α : Type) extends Add α, Sub α, Mul α, Div α, OfScientific α where
  below : α → α → Bool
  /-- The larger of two; of one that is no number and another, the other. -/
  larger : α → α → α
  smaller : α → α → α
  power : α → α → α
  ofNat : Nat → α
  ofVelocity : Float32 → α

namespace Scalar

variable {α : Type} [Scalar α]

def ofInt (n : Int) : α :=
  if n < 0 then 0.0 - ofNat n.natAbs else ofNat n.natAbs

/-- Moves a value that lies outside an interval to the end it passed. -/
def clamp (lo hi x : α) : α :=
  if below x lo then lo else if below hi x then hi else x

end Scalar

def largerFloat (x y : Float) : Float :=
  if x.isNaN then y else if y.isNaN then x else if x < y then y else x

def smallerFloat (x y : Float) : Float :=
  if x.isNaN then y else if y.isNaN then x else if y < x then y else x

instance : Scalar Float where
  below x y := decide (x < y)
  larger := largerFloat
  smaller := smallerFloat
  power := Float.pow
  ofNat := Float.ofNat
  ofVelocity := Float32.toFloat

end ScoreSynth
