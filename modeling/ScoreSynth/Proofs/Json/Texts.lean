import ScoreSynth.Json.Reader
import ScoreSynth.Json.Writer

/-!
# Escaped texts

A text that was escaped is one body up to its closing quote, and spells the text it was escaped
from.
-/

namespace ScoreSynth.Json

theorem hexUnit?_hexChar : ∀ a < 16, ∀ b < 16,
    hexUnit? '0' '0' (hexChar a) (hexChar b) = some (16 * a + b) := by decide

section
variable (c : Char) (t : List Char)

theorem hexUnit?_control (h : c.toNat < 0x20) :
    hexUnit? '0' '0' (hexChar (c.toNat / 16)) (hexChar (c.toNat % 16)) = some c.toNat := by
  rw [hexUnit?_hexChar _ (by omega) _ (by omega), Nat.div_add_mod]

theorem body?_escapeChar :
    body? (escapeChar c ++ t) = (body? t).map fun (b, r) => (escapeChar c ++ b, r) := by
  unfold escapeChar
  split
  case h_8 =>
    split
    · rename_i h
      simp only [List.cons_append, List.nil_append, body?, hexUnit?_control c h]
    · rename_i hquote hslash _ _ _ _ _ h
      rw [List.singleton_append, body?.eq_def]
      split
      · rename_i heq
        exact absurd (List.cons.inj heq).1 hquote
      · rename_i heq
        exact absurd (List.cons.inj heq).1 hslash
      · rename_i heq
        exact absurd (List.cons.inj heq).1 hslash
      · rename_i heq
        obtain ⟨rfl, rfl⟩ := List.cons.inj heq
        rw [if_neg (by simpa [h] using hslash)]
        rfl
      · rename_i heq
        exact absurd heq (List.cons_ne_nil _ _)
  all_goals rfl

theorem unescape?_escapeChar :
    unescape? (escapeChar c ++ t) = (unescape? t).map (c :: ·) := by
  unfold escapeChar
  split
  case h_8 =>
    split
    · rename_i h
      have hhigh : isHighSurrogate c.toNat = false := by
        simp only [isHighSurrogate, Bool.and_eq_false_iff, decide_eq_false_iff_not]
        omega
      have hlow : isLowSurrogate c.toNat = false := by
        simp only [isLowSurrogate, Bool.and_eq_false_iff, decide_eq_false_iff_not]
        omega
      simp [unescape?, hexUnit?_control c h, hhigh, hlow, Char.ofNat_toNat]
    · rename_i hslash _ _ _ _ _ h
      rw [List.singleton_append, unescape?.eq_def]
      split
      · rename_i heq
        exact absurd (List.cons.inj heq).1 hslash
      · rename_i heq
        exact absurd (List.cons.inj heq).1 hslash
      · rename_i heq
        obtain ⟨rfl, rfl⟩ := List.cons.inj heq
        rfl
      · rename_i heq
        exact absurd heq (List.cons_ne_nil _ _)
  all_goals rfl

end

def IsBody (b : List Char) : Prop := ∀ r, body? (b ++ '"' :: r) = some (b, r)

theorem isBody_escape (s : List Char) : IsBody (escape s) := by
  intro r
  induction s with
  | nil => rfl
  | cons c s ih =>
    rw [escape, List.flatMap_cons, List.append_assoc, body?_escapeChar, ← escape, ih]
    rfl

theorem unescape?_escape (s : List Char) : unescape? (escape s) = some s := by
  induction s with
  | nil => rfl
  | cons c s ih =>
    rw [escape, List.flatMap_cons, unescape?_escapeChar, ← escape, ih]
    rfl

end ScoreSynth.Json
