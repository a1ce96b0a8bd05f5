import ScoreSynth.Number.Decimal
import ScoreSynth.Number.Layout
import ScoreSynth.Scalar
import ScoreSynth.Text.Split

/-!
# Beats

Musical time in whole ticks, 960 to a beat, so that common fractions of a beat are exact and sums
do not drift. Sums stop at the greatest tick count. A length in beats is read as digits with at most
24 decimals and written with the fewest digits of its nearest double.
-/

namespace ScoreSynth

structure Beat where
  ticks : Nat
  ticks_le : ticks ≤ Number.max64 := by decide
  deriving DecidableEq, Repr

namespace Beat

def perBeat : Nat := 960

def maxDecimals : Nat := 24

def zero : Beat := ⟨0, Nat.zero_le _⟩

def one : Beat := ⟨perBeat, by decide⟩

def half : Beat := ⟨480, by decide⟩

def threeQuarters : Beat := ⟨720, by decide⟩

/-- The greatest beat, if there are too many ticks. -/
def ofTicks (n : Nat) : Beat := ⟨min n Number.max64, Nat.min_le_right _ _⟩

def ofTicks? (n : Nat) : Option Beat :=
  if h : n ≤ Number.max64 then some ⟨n, h⟩ else none

def isZero (b : Beat) : Bool := b.ticks == 0

def add (a b : Beat) : Beat := ofTicks (a.ticks + b.ticks)

instance : Add Beat := ⟨add⟩

def longer (a b : Beat) : Beat := if a.ticks ≤ b.ticks then b else a

def sum (bs : List Beat) : Beat := bs.foldl add zero

def longest (bs : List Beat) : Beat := bs.foldl longer zero

/-! ### Beats as numbers -/

/-- The length in beats as a double: the tick count is rounded, then the quotient. -/
def quotient (b : Beat) : Number.Binary :=
  (Number.Binary.nearest .double b.ticks 1).divNat .double perBeat

/-- The nearest tick to a length in beats; the product is rounded before it is. -/
def ofQuotient (x : Number.Binary) : Beat := ofTicks (x.mulNat .double perBeat).round

/-- Lengths that are negative or no finite number count as zero. -/
def ofFloat (x : Float) : Beat :=
  if x.isNaN || x.isInf || Number.isNegative x then zero
  else ofQuotient (Number.Binary.ofFloat x)

section
variable {α : Type} [Scalar α]

def beats (b : Beat) : α := Scalar.ofNat b.ticks / 960.0

/-- Time on the clock at `tempo` beats a minute; none at tempo zero. -/
def seconds (b : Beat) (tempo : Nat) : α :=
  if tempo = 0 then 0.0 else b.beats * 60.0 / Scalar.ofNat tempo

end

/-! ### Beats as text -/

/-- Ticks of `whole.decimals` beats, to the nearest tick, a half going up. -/
def ticksOf (whole decimals : List Char) : Nat :=
  Number.digitsValue whole * perBeat +
    Number.roundUp (Number.digitsValue decimals * perBeat) (Number.tenTo decimals.length)

def isDigits (s : List Char) : Bool := !s.isEmpty && s.all Char.isDigit

/-- Digits, or digits, a point and at most 24 digits. -/
def parse? (s : List Char) : Option Beat :=
  match Text.cut '.' s with
  | none => if isDigits s then ofTicks? (ticksOf s []) else none
  | some (whole, decimals) =>
    if isDigits whole && isDigits decimals && decimals.length ≤ maxDecimals then
      ofTicks? (ticksOf whole decimals)
    else none

def write (b : Beat) : List Char :=
  if b.ticks % perBeat = 0 then Number.decimalText (b.ticks / perBeat)
  else Number.Layout.plain.writeBinary .double b.quotient

theorem ext_ticks {a b : Beat} (h : a.ticks = b.ticks) : a = b := by
  cases a; cases b; simp_all

theorem isZero_iff {b : Beat} : b.isZero = true ↔ b.ticks = 0 := beq_iff_eq

theorem ticks_add (a b : Beat) : (a + b).ticks = min (a.ticks + b.ticks) Number.max64 := rfl

theorem add_assoc (a b c : Beat) : a + b + c = a + (b + c) := by
  have := a.ticks_le; have := b.ticks_le; have := c.ticks_le
  apply ext_ticks; simp only [ticks_add]; omega

theorem zero_add (a : Beat) : zero + a = a := by
  have := a.ticks_le
  apply ext_ticks; rw [ticks_add]; simp only [zero]; omega

end Beat

end ScoreSynth
