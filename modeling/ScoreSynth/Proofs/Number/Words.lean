import ScoreSynth.Number.Decimal

/-!
# Machine words

Arithmetic on naturals that have to fit a word. A checked result that is too large for its word is
none, an unchecked one is a fault. Digits that are read with every product and every sum checked
come to what their value comes to when it is checked at the end.
-/

namespace ScoreSynth

/-- What ends a run in the middle. -/
inductive Fault where
  | overflow
  /-- No byte stands at the position. -/
  | outOfRange
  /-- A cut inside a character or behind the end. -/
  | offBoundary
  deriving DecidableEq, Repr

namespace Word

def max31 : Nat := 0x7FFFFFFF

def max128 : Nat := 0xFFFFFFFFFFFFFFFFFFFFFFFFFFFFFFFF

def checked (limit n : Nat) : Option Nat := if n ≤ limit then some n else none

def checkedSigned (limit : Nat) (n : Int) : Option Int :=
  if -(limit + 1) ≤ n ∧ n ≤ limit then some n else none

def fit (limit n : Nat) : Except Fault Nat := if n ≤ limit then .ok n else .error .overflow

def shift? (limit n : Nat) (c : Char) : Option Nat :=
  (checked limit (10 * n)).bind fun m => checked limit (m + Number.digitValue c)

def digits? (limit : Nat) (s : List Char) : Option Nat := s.foldlM (shift? limit) 0

section
variable {limit n : Nat}

theorem checked_of_le (h : n ≤ limit) : checked limit n = some n := if_pos h

theorem checked_of_lt (h : limit < n) : checked limit n = none := if_neg (by omega)

theorem fit_of_le (h : n ≤ limit) : fit limit n = .ok n := if_pos h

theorem shift?_eq (c : Char) :
    shift? limit n c = checked limit (10 * n + Number.digitValue c) := by
  unfold shift?
  by_cases h : 10 * n ≤ limit
  · rw [checked_of_le h, Option.bind_some]
  · rw [checked_of_lt (by omega), checked_of_lt (by omega), Option.bind_none]

theorem le_foldl_digits (s : List Char) (n : Nat) :
    n ≤ s.foldl (fun n c => 10 * n + Number.digitValue c) n := by
  induction s generalizing n with
  | nil => exact Nat.le_refl n
  | cons c s ih =>
    rw [List.foldl_cons]
    have := ih (10 * n + Number.digitValue c)
    omega

theorem foldlM_shift? (s : List Char) (h : n ≤ limit) : s.foldlM (shift? limit) n =
    checked limit (s.foldl (fun n c => 10 * n + Number.digitValue c) n) := by
  induction s generalizing n with
  | nil => exact (checked_of_le h).symm
  | cons c s ih =>
    rw [List.foldlM_cons, List.foldl_cons, shift?_eq]
    by_cases hc : 10 * n + Number.digitValue c ≤ limit
    · rw [checked_of_le hc]
      exact ih hc
    · have := le_foldl_digits s (10 * n + Number.digitValue c)
      rw [checked_of_lt (by omega), checked_of_lt (by omega)]
      rfl

theorem digits?_eq (limit : Nat) (s : List Char) :
    digits? limit s = checked limit (Number.digitsValue s) :=
  foldlM_shift? s (Nat.zero_le limit)

end

end Word

end ScoreSynth
