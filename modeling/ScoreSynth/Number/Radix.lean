/-!
# Digits of other bases

Numerals in a base up to sixteen, with letters of either case for the digits above nine.
-/

namespace ScoreSynth.Number

def hexDigit? (c : Char) : Option Nat :=
  if c.isDigit then some (c.toNat - '0'.toNat)
  else if 'a' ≤ c ∧ c ≤ 'f' then some (c.toNat - 'a'.toNat + 10)
  else if 'A' ≤ c ∧ c ≤ 'F' then some (c.toNat - 'A'.toNat + 10)
  else none

/-- A run of digits of a base that is not empty, as a number. -/
def radixValue? (radix : Nat) (s : List Char) : Option Nat :=
  if s.isEmpty then none
  else s.foldlM (fun n c => ((hexDigit? c).filter (· < radix)).map fun d => n * radix + d) 0

end ScoreSynth.Number
