import ScoreSynth.Text.Blank

/-!
# Cutting a text into pieces

`cut` divides at the first separator, `lines` at line ends. A line end is a line feed together with
one carriage return before it; what follows the last line feed is a line only if it is not empty.
-/

namespace ScoreSynth.Text

/-- The parts before and after the first separator. -/
def cut (sep : Char) : List Char → Option (List Char × List Char)
  | [] => none
  | c :: s => if c = sep then some ([], s) else (cut sep s).map fun (a, b) => (c :: a, b)

/-- One carriage return less at the end. -/
def dropReturn (line : List Char) : List Char :=
  if line.getLast? = some '\r' then line.dropLast else line

def linesOf : List (List Char) → List (List Char)
  | [] => []
  | [last] => if last.isEmpty then [] else [last]
  | line :: rest => dropReturn line :: linesOf rest

def lines (s : List Char) : List (List Char) := linesOf (s.splitOn '\n')

/-- What stands before the first occurrence of `//`. -/
def beforeSlashes : List Char → List Char
  | '/' :: '/' :: _ => []
  | c :: s => c :: beforeSlashes s
  | [] => []

theorem cut_eq_none_iff {sep : Char} {s : List Char} : cut sep s = none ↔ sep ∉ s := by
  induction s with
  | nil => simp [cut]
  | cons c s ih =>
    by_cases h : c = sep
    · simp [cut, h]
    · simp [cut, h, ih, Ne.symm h]

theorem cut_eq_some {sep : Char} {s a b : List Char} (h : cut sep s = some (a, b)) :
    s = a ++ sep :: b ∧ sep ∉ a := by
  induction s generalizing a with
  | nil => simp [cut] at h
  | cons c s ih =>
    by_cases hc : c = sep
    · simp only [cut, hc, if_true, Option.some.injEq, Prod.mk.injEq] at h
      simp [← h.1, ← h.2, hc]
    · simp only [cut, hc, if_false, Option.map_eq_some_iff, Prod.exists, Prod.mk.injEq] at h
      obtain ⟨a', b', hs, rfl, rfl⟩ := h
      obtain ⟨h1, h2⟩ := ih hs
      simp [h1, h2, Ne.symm hc]

end ScoreSynth.Text
