import ScoreSynth.Number.Binary

/-!
# Fewest digits

The decimal with the fewest digits that still reads back as a given binary number, and of those the
nearest. A grid of decimals has one point or more in the interval of numbers that round to the
value exactly if one of the two grid points next to the value lies in it, so only those are tried.
-/

namespace ScoreSynth.Number

/-- Digits without leading or trailing zeros, read after a point that stands `point` places on. -/
structure Digits where
  digits : List Char
  point : Int
  deriving DecidableEq, Repr

def decimalText (n : Nat) : List Char := Nat.toDigits 10 n

namespace Binary

/--
The half-width below a value: half the gap to the number below it, in quarters of the value's unit.
The gap is narrower below a power of two.
-/
def quartersBelow (w : Width) (x : Binary) : Nat :=
  if x.significand = twoTo (w.bits - 1) ∧ w.least < x.exponent then 1 else 2

/-- Numerator and denominator of a decimal `d * 10 ^ k`. -/
def decimalRatio (d : Nat) (k : Int) : Nat × Nat :=
  if k < 0 then (d, tenTo k.natAbs) else (d * tenTo k.natAbs, 1)

/-- Whether the decimal reads back as the value: it lies nearer to it than to any other number. -/
def readsBack (w : Width) (x : Binary) (d : Nat) (k : Int) : Bool :=
  let (n, m) := decimalRatio d k
  let (un, ud) := ratio ⟨1, x.exponent - 2⟩
  let lower := (4 * x.significand - quartersBelow w x) * un * m
  let upper := (4 * x.significand + 2) * un * m
  if x.significand % 2 = 0 then lower ≤ n * ud && n * ud ≤ upper
  else lower < n * ud && n * ud < upper

/-- The first of `fuel` powers of ten from `10 ^ k` on that is above `n / d`. -/
def climb (n d : Nat) : Nat → Int → Int
  | 0, k => k
  | fuel + 1, k =>
    let (pn, pd) := decimalRatio 1 k
    if n * pd < pn * d then k else climb n d fuel (k + 1)

/--
The least `k` with the value below `10 ^ k`. A bit is 0.30103 of a digit, so the climb starts at
most three places too low.
-/
def decimalPoint (x : Binary) : Int :=
  let (n, d) := x.ratio
  climb n d 8 (((n.log2 : Int) - d.log2) * 30103 / 100000 - 1)

/-- Among the grid points of step `10 ^ k` next to the value, the one that reads back. -/
def onGrid (w : Width) (tieUp : Bool) (x : Binary) (k : Int) : Option Nat :=
  let (n, d) := x.ratio
  let (gn, gd) := decimalRatio 1 k
  let num := n * gd
  let den := d * gn
  let below := num / den
  let rest := num % den
  let fromBelow := below ≠ 0 && readsBack w x below k
  let fromAbove := readsBack w x (below + 1) k
  let aboveIsNearer :=
    2 * rest > den || (2 * rest == den && (tieUp || below % 2 == 1))
  if fromBelow && fromAbove then some (if aboveIsNearer then below + 1 else below)
  else if fromBelow then some below
  else if fromAbove then some (below + 1)
  else none

def stripZeros (s : List Char) : List Char := (s.reverse.dropWhile (· = '0')).reverse

def ofDecimal (d : Nat) (k : Int) : Digits :=
  let s := decimalText d
  ⟨stripZeros s, k + s.length⟩

/--
The fewest digits that read back as a value other than zero. Where two such decimals are equally
near, `tieUp` takes the larger and otherwise the even one is taken.
-/
def shortest (w : Width) (tieUp : Bool) (x : Binary) : Digits :=
  let p := x.decimalPoint
  let found := (List.range 20).findSome? fun (n : Nat) =>
    let k := p - n - 1
    (onGrid w tieUp x k).map fun d => ofDecimal d k
  found.getD ⟨['0'], 1⟩

end Binary

end ScoreSynth.Number
