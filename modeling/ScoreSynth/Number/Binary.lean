/-!
# Binary numbers

A number that a floating-point register can hold, as a whole multiple of a power of two, and the
nearest such number to a quotient of naturals. Everything here is exact arithmetic on naturals; the
machine's own floats appear only where a value is packed into bits or taken out of them.
-/

namespace ScoreSynth.Number

def max32 : Nat := 0xFFFFFFFF

def max64 : Nat := 0xFFFFFFFFFFFFFFFF

/-- The unit that stands `n` bits above one. -/
abbrev twoTo (n : Nat) : Nat := Nat.pow 2 n

/-- The unit that stands `n` decimal places above one. -/
abbrev tenTo (n : Nat) : Nat := Nat.pow 10 n

/-- How many bits a significand has, and the least exponent its unit may have. -/
structure Width where
  bits : Nat
  least : Int

def Width.double : Width := ⟨53, -1074⟩

def Width.single : Width := ⟨24, -149⟩

/-- The value `significand * 2 ^ exponent`. -/
structure Binary where
  significand : Nat
  exponent : Int
  deriving DecidableEq, Repr

/-- The natural nearest to `num / den`; a half goes to the even neighbour. -/
def roundEven (num den : Nat) : Nat :=
  let q := num / den
  let r := num % den
  if 2 * r < den then q else if 2 * r > den then q + 1 else q + q % 2

/-- The natural nearest to `num / den`; a half goes up. -/
def roundUp (num den : Nat) : Nat := (2 * num + den) / (2 * den)

namespace Binary

/-- `num / den` divided by `2 ^ e`, as numerator and denominator. -/
def scaled (num den : Nat) (e : Int) : Nat × Nat :=
  if e < 0 then (num * twoTo e.natAbs, den) else (num, den * twoTo e.natAbs)

/--
The exponent of the unit in which `num / den` has exactly `w.bits` bits before the point, or the
least exponent if that is larger.
-/
def unitExponent (w : Width) (num den : Nat) : Int :=
  let e := max w.least ((num.log2 : Int) - den.log2 - w.bits)
  let (n, d) := scaled num den e
  if n / d < twoTo w.bits then e else e + 1

/-- The number of the given width nearest to `num / den`; a half goes to the even significand. -/
def nearest (w : Width) (num den : Nat) : Binary :=
  if num = 0 then ⟨0, w.least⟩ else
    let e := unitExponent w num den
    let (n, d) := scaled num den e
    ⟨roundEven n d, e⟩

def ratio (x : Binary) : Nat × Nat :=
  if x.exponent < 0 then (x.significand, twoTo x.exponent.natAbs)
  else (x.significand * twoTo x.exponent.natAbs, 1)

/-- The product with a natural, rounded to the given width. -/
def mulNat (w : Width) (x : Binary) (k : Nat) : Binary :=
  nearest w (x.ratio.1 * k) x.ratio.2

/-- The quotient by a natural, rounded to the given width. -/
def divNat (w : Width) (x : Binary) (k : Nat) : Binary :=
  nearest w x.ratio.1 (x.ratio.2 * k)

def round (x : Binary) : Nat := roundUp x.ratio.1 x.ratio.2

def passesDouble (x : Binary) : Bool :=
  x.significand ≠ 0 && 1024 ≤ (x.significand.log2 : Int) + x.exponent

def passesSingle (x : Binary) : Bool :=
  x.significand ≠ 0 && 128 ≤ (x.significand.log2 : Int) + x.exponent

/--
Packs a value that `nearest` gave. The biased exponent and the fraction are added, not joined, so a
significand that was rounded up to a power of two carries into the exponent by itself.
-/
def toFloat (x : Binary) (negative : Bool) : Float :=
  let magnitude :=
    if x.passesDouble then 0x7FF * twoTo 52
    else ((x.exponent + 1075).toNat * twoTo 52 + x.significand) - twoTo 52
  Float.ofBits (UInt64.ofNat (magnitude + if negative then twoTo 63 else 0))

def toFloat32 (x : Binary) (negative : Bool) : Float32 :=
  let magnitude :=
    if x.passesSingle then 0xFF * twoTo 23
    else ((x.exponent + 150).toNat * twoTo 23 + x.significand) - twoTo 23
  Float32.ofBits (UInt32.ofNat (magnitude + if negative then twoTo 31 else 0))

def ofFloat (x : Float) : Binary :=
  let b : Nat := x.toBits.toNat % twoTo 63
  let field : Nat := b / twoTo 52
  let fraction : Nat := b % twoTo 52
  if field = 0 then ⟨fraction, -1074⟩ else ⟨twoTo 52 + fraction, (field : Int) - 1075⟩

def ofFloat32 (x : Float32) : Binary :=
  let b : Nat := x.toBits.toNat % twoTo 31
  let field : Nat := b / twoTo 23
  let fraction : Nat := b % twoTo 23
  if field = 0 then ⟨fraction, -149⟩ else ⟨twoTo 23 + fraction, (field : Int) - 150⟩

end Binary

/-- The sign bit of a double, also of a zero. -/
def isNegative (x : Float) : Bool := twoTo 63 ≤ x.toBits.toNat

def isNegative32 (x : Float32) : Bool := twoTo 31 ≤ x.toBits.toNat

/-- The natural nearest to a float, a half going up, within the 64-bit naturals. -/
def count (x : Float) : Nat :=
  if x.isNaN || isNegative x then 0
  else if x.isInf then max64
  else min (Binary.ofFloat x).round max64

theorem roundEven_one (n : Nat) : roundEven n 1 = n := by
  simp [roundEven, Nat.mod_one]

end ScoreSynth.Number
