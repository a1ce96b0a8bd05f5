import ScoreSynth.Number.Shortest

/-!
# Laying out the digits of a number

Given the fewest digits of a float, a layout decides between positional and exponent form, how a
whole number ends, and how the values that have no digits are named. `fixed` rounds to a given
number of places instead.
-/

namespace ScoreSynth.Number

structure Layout where
  /-- The least and greatest place of the point that are written positionally; all, if none. -/
  positional : Option (Int × Int)
  wholeEnding : String
  tieUp : Bool
  /-- A plus sign stands before an exponent that is not below zero. -/
  plusExponent : Bool
  nan : String
  infinity : String
  negativeInfinity : String

namespace Layout

/-- Always positional, whole numbers without a point. -/
def plain : Layout := ⟨none, "", true, false, "NaN", "inf", "-inf"⟩

/-- Positional from 0.0001 to below 10^16, always with a point or an exponent. -/
def logged : Layout := ⟨some (-3, 16), ".0", true, false, "NaN", "inf", "-inf"⟩

def zeros (n : Int) : List Char := List.replicate n.toNat '0'

def writePositional (ending : String) (d : Digits) : List Char :=
  if d.point ≤ 0 then '0' :: '.' :: (zeros (-d.point) ++ d.digits)
  else if d.digits.length ≤ d.point then
    d.digits ++ zeros (d.point - d.digits.length) ++ ending.toList
  else d.digits.take d.point.toNat ++ '.' :: d.digits.drop d.point.toNat

def writeInt (n : Int) : List Char :=
  if n < 0 then '-' :: decimalText n.natAbs else decimalText n.natAbs

/-- One digit before the point, and `plus` in front of an exponent that is not below zero. -/
def writeExponent (plus : List Char) (d : Digits) : List Char :=
  let head := match d.digits with
    | [] => ['0']
    | [c] => [c]
    | c :: rest => c :: '.' :: rest
  head ++ 'e' :: ((if d.point < 1 then [] else plus) ++ writeInt (d.point - 1))

def isPositional (l : Layout) (d : Digits) : Bool :=
  match l.positional with
  | none => true
  | some (least, greatest) => least ≤ d.point && d.point ≤ greatest

def writeDigits (l : Layout) (d : Digits) : List Char :=
  if l.isPositional d then writePositional l.wholeEnding d
  else writeExponent (if l.plusExponent then ['+'] else []) d

/-- A magnitude of the given width, with zero as the digit 0. -/
def writeBinary (l : Layout) (w : Width) (x : Binary) : List Char :=
  if x.significand = 0 then l.writeDigits ⟨['0'], 1⟩
  else l.writeDigits (x.shortest w l.tieUp)

def signed (negative : Bool) (s : List Char) : List Char := if negative then '-' :: s else s

def write (l : Layout) (x : Float) : String :=
  if x.isNaN then l.nan
  else if x.isInf then if isNegative x then l.negativeInfinity else l.infinity
  else String.ofList (signed (isNegative x) (l.writeBinary .double (.ofFloat x)))

def write32 (l : Layout) (x : Float32) : String :=
  if x.isNaN then l.nan
  else if x.isInf then if isNegative32 x then l.negativeInfinity else l.infinity
  else String.ofList (signed (isNegative32 x) (l.writeBinary .single (.ofFloat32 x)))

end Layout

/-- The number with exactly `places` digits after the point; a half goes to the even neighbour. -/
def fixed (places : Nat) (x : Float) : String :=
  if x.isNaN then Layout.plain.nan
  else if x.isInf then
    if isNegative x then Layout.plain.negativeInfinity else Layout.plain.infinity
  else
    let (n, d) := (Binary.ofFloat x).ratio
    let units := roundEven (n * tenTo places) d
    let fraction := decimalText (units % tenTo places)
    let padded := List.replicate (places - fraction.length) '0' ++ fraction
    let whole := decimalText (units / tenTo places)
    String.ofList (Layout.signed (isNegative x)
      (if places = 0 then whole else whole ++ '.' :: padded))

end ScoreSynth.Number
