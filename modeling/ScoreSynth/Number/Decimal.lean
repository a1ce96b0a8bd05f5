import ScoreSynth.Number.Binary

/-!
# Decimal numerals

Numerals as they are read: the value of a run of digits, a numeral with sign, fraction and
exponent, and the nearest float to it.
-/

namespace ScoreSynth.Number

def digitValue (c : Char) : Nat := c.toNat - '0'.toNat

def digitsValue (s : List Char) : Nat := s.foldl (fun n c => 10 * n + digitValue c) 0

/-- A run of digits that is not empty, as a number. -/
def natural? (s : List Char) : Option Nat :=
  if !s.isEmpty && s.all Char.isDigit then some (digitsValue s) else none

/-- A natural with at most one plus sign in front, and not above `limit`. -/
def unsigned? (limit : Nat) (s : List Char) : Option Nat :=
  let digits := match s with
    | '+' :: r => r
    | _ => s
  (natural? digits).filter (· ≤ limit)

/-- The numeral `significand * 10 ^ exponent`, below zero or not. -/
structure Decimal where
  negative : Bool
  significand : Nat
  exponent : Int
  /-- It was written without fraction and exponent. -/
  whole : Bool
  deriving DecidableEq, Repr

namespace Decimal

/--
The nearest number of a width, without a sign. Far outside the range of a double the powers of ten
are not worked out: the value is then zero or past every finite number.
-/
def magnitude (w : Width) (d : Decimal) : Binary :=
  let top := (d.significand.log2 : Int) * 30103 / 100000 + d.exponent
  if d.significand = 0 || top < -400 then ⟨0, w.least⟩
  else if 400 < top then ⟨1, 2000⟩
  else if d.exponent < 0 then Binary.nearest w d.significand (tenTo d.exponent.natAbs)
  else Binary.nearest w (d.significand * tenTo d.exponent.natAbs) 1

def toFloat (d : Decimal) : Float := (d.magnitude .double).toFloat d.negative

def toFloat32 (d : Decimal) : Float32 := (d.magnitude .single).toFloat32 d.negative

def exponent? (s : List Char) : Option Int :=
  match s with
  | '-' :: r => (natural? r).map fun n => -(n : Int)
  | '+' :: r => (natural? r).map fun n => (n : Int)
  | _ => (natural? s).map fun n => (n : Int)

def ofParts (negative : Bool) (whole fraction : List Char) (exponent : Int) (plain : Bool) :
    Decimal :=
  ⟨negative, digitsValue (whole ++ fraction), exponent - fraction.length, plain⟩

def signOf : List Char → Bool × List Char
  | '-' :: s => (true, s)
  | '+' :: s => (false, s)
  | s => (false, s)

/--
A numeral with a sign or without, a digit before or after an optional point, and an optional
exponent.
-/
def parse? (s : List Char) : Option Decimal :=
  let (negative, s) := signOf s
  let whole := s.takeWhile Char.isDigit
  let (fraction, rest) := match s.dropWhile Char.isDigit with
    | '.' :: r => (r.takeWhile Char.isDigit, r.dropWhile Char.isDigit)
    | r => ([], r)
  if whole.isEmpty && fraction.isEmpty then none
  else match rest with
    | [] => some (ofParts negative whole fraction 0 false)
    | e :: r =>
      if e == 'e' || e == 'E' then
        (exponent? r).map fun n => ofParts negative whole fraction n false
      else none

end Decimal

/-- The single that a numeral or one of the words for the other values names. -/
def parseFloat32? (s : List Char) : Option Float32 :=
  let (negative, word) := Decimal.signOf s
  let word := String.ofList (word.map Char.toLower)
  if word == "inf" || word == "infinity" then
    some (if negative then -1.0 / 0.0 else 1.0 / 0.0)
  else if word == "nan" then some (0.0 / 0.0)
  else (Decimal.parse? s).map Decimal.toFloat32

end ScoreSynth.Number
