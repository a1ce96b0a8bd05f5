/-!
# Sine and cosine in single precision

For angles from zero to a little over a half turn. The angle is folded into an eighth of a turn
around zero, where short polynomials in double precision are exact enough that only the rounding of
the result to single precision is left.
-/

namespace ScoreSynth.Sound

def quarterTurn : Float := 1.5707963267948966

def halfTurn : Float := 3.141592653589793

def sinePolynomial (x : Float) : Float :=
  let z := x * x
  let r := -0.000198393348360966317347 + z * 0.0000027183114939898219064
  let s := z * x
  (x + s * (-0.166666666416265235595 + z * 0.0083333293858894631756)) + s * (z * z) * r

def cosinePolynomial (x : Float) : Float :=
  let z := x * x
  let w := z * z
  let r := -0.00138867637746099294692 + z * 0.0000243904487962774090654
  ((1.0 + z * -0.499999997251031003120) + w * 0.0416666233237390631894) + (w * z) * r

/-- An eighth of a turn, as the last single that belongs to it. -/
def eighthTurn : Float32 := Float32.ofBits 0x3F490FDA

def threeEighthsTurn : Float32 := Float32.ofBits 0x4016CBE3

/-- Below this an angle is its own sine, and its cosine is one. -/
def smallAngle : Float32 := Float32.ofBits 0x39800000

def sine (x : Float32) : Float32 :=
  if x < smallAngle then x
  else if x ≤ eighthTurn then (sinePolynomial x.toFloat).toFloat32
  else if x ≤ threeEighthsTurn then (cosinePolynomial (x.toFloat - quarterTurn)).toFloat32
  else (sinePolynomial (-(x.toFloat - halfTurn))).toFloat32

def cosine (x : Float32) : Float32 :=
  if x < smallAngle then 1.0
  else if x ≤ eighthTurn then (cosinePolynomial x.toFloat).toFloat32
  else if x ≤ threeEighthsTurn then (sinePolynomial (quarterTurn - x.toFloat)).toFloat32
  else (-(cosinePolynomial (x.toFloat - halfTurn))).toFloat32

end ScoreSynth.Sound
