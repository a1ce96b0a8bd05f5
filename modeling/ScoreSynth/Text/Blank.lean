/-!
# Blanks and trimming

A blank is a character with the Unicode property White_Space. Trimming takes the blanks off both
ends of a text and nothing else.
-/

namespace ScoreSynth.Text

def isBlank (c : Char) : Bool :=
  let n := c.toNat
  (0x9 ≤ n && n ≤ 0xD) || n == 0x20 || n == 0x85 || n == 0xA0 || n == 0x1680 ||
    (0x2000 ≤ n && n ≤ 0x200A) || n == 0x2028 || n == 0x2029 || n == 0x202F || n == 0x205F ||
    n == 0x3000

def trimLeft (s : List Char) : List Char := s.dropWhile isBlank

def trimRight (s : List Char) : List Char := (s.reverse.dropWhile isBlank).reverse

def trim (s : List Char) : List Char := trimRight (trimLeft s)

def allBlank (s : List Char) : Bool := s.all isBlank

theorem head_trimLeft (s : List Char) : ∀ c ∈ (trimLeft s).head?, isBlank c = false := by
  intro c hc
  induction s with
  | nil => simp [trimLeft] at hc
  | cons d s ih =>
    by_cases hd : isBlank d = true
    · exact ih (by simpa [trimLeft, List.dropWhile_cons, hd] using hc)
    · have : d = c := by simpa [trimLeft, List.dropWhile_cons, hd] using hc
      simpa [this] using hd

end ScoreSynth.Text
