import ScoreSynth.Proofs.Beat.Written
import ScoreSynth.Proofs.Number.Spelled
import ScoreSynth.Proofs.Number.Words

/-!
# The grammar of lengths

A length in beats is read from digits, or from digits, a point and 1 to 24 digits, and from nothing
else; it is the tick nearest to the value, a half going up, and there is none if that does not fit
64 bits. Read step by step on words of 64 and 128 bits, nothing on the way outgrows its word.
-/

namespace ScoreSynth.Beat

open Number

/-! ## Texts and their values -/

/-- The text is a length in beats with this value. -/
inductive Notated : List Char → ℚ → Prop where
  | whole {w : List Char} : w ≠ [] → (∀ c ∈ w, c.isDigit = true) → Notated w (digitsValue w)
  | pointed {w f : List Char} : w ≠ [] → (∀ c ∈ w, c.isDigit = true) →
      f ≠ [] → (∀ c ∈ f, c.isDigit = true) → f.length ≤ 24 →
      Notated (w ++ '.' :: f) (digitsValue w + digitsValue f / 10 ^ f.length)

section
variable {t : List Char} {v : ℚ}

theorem Notated.parse?_eq (h : Notated t v) : parse? t = ofTicks? ⌊v * 960 + 1 / 2⌋₊ := by
  cases h with
  | whole hne hw =>
    have hp := parse?_numeral hne hw (List.forall_mem_nil _) (Nat.zero_le _)
    have hzero : (digitsValue [] : ℚ) / 10 ^ ([] : List Char).length = 0 := by
      simp [digitsValue]
    rwa [hzero, add_zero] at hp
  | pointed hne hw hf hd hl =>
    have hp := parse?_numeral hne hw hd hl
    rwa [numeral_eq, if_neg hf] at hp

theorem isDigits_iff {s : List Char} :
    isDigits s = true ↔ s ≠ [] ∧ ∀ c ∈ s, c.isDigit = true := by
  unfold isDigits
  simp

theorem exists_notated {b : Beat} (h : parse? t = some b) : ∃ v, Notated t v := by
  unfold parse? at h
  split at h
  · split at h
    · rename_i hd
      obtain ⟨hne, hw⟩ := isDigits_iff.mp hd
      exact ⟨_, .whole hne hw⟩
    · cases h
  · rename_i w f hcut
    obtain ⟨rfl, -⟩ := Text.cut_eq_some hcut
    split at h
    · rename_i hd
      simp only [Bool.and_eq_true, decide_eq_true_eq] at hd
      obtain ⟨⟨hw, hf⟩, hl⟩ := hd
      obtain ⟨hne, hw⟩ := isDigits_iff.mp hw
      obtain ⟨hfne, hf⟩ := isDigits_iff.mp hf
      exact ⟨_, .pointed hne hw hfne hf hl⟩
    · cases h

theorem ofTicks?_eq_some_iff {n : Nat} {b : Beat} :
    ofTicks? n = some b ↔ n ≤ max64 ∧ b.ticks = n := by
  unfold ofTicks?
  by_cases h : n ≤ max64
  · rw [dif_pos h, Option.some.injEq]
    constructor
    · rintro rfl
      exact ⟨h, rfl⟩
    · rintro ⟨-, hb⟩
      exact ext_ticks hb.symm
  · simp [h]

theorem parse?_eq_some_iff {b : Beat} : parse? t = some b ↔
    ∃ v, Notated t v ∧ ⌊v * 960 + 1 / 2⌋₊ ≤ max64 ∧ b.ticks = ⌊v * 960 + 1 / 2⌋₊ := by
  constructor
  · intro h
    obtain ⟨v, hv⟩ := exists_notated h
    rw [hv.parse?_eq] at h
    exact ⟨v, hv, ofTicks?_eq_some_iff.mp h⟩
  · rintro ⟨v, hv, hticks⟩
    rw [hv.parse?_eq]
    exact ofTicks?_eq_some_iff.mpr hticks

theorem parse?_eq_none_iff :
    parse? t = none ↔ ¬∃ v, Notated t v ∧ ⌊v * 960 + 1 / 2⌋₊ ≤ max64 := by
  rw [Option.eq_none_iff_forall_ne_some]
  constructor
  · rintro h ⟨v, hv, hle⟩
    exact h ⟨_, hle⟩ (parse?_eq_some_iff.mpr ⟨v, hv, hle, rfl⟩)
  · intro h b hb
    obtain ⟨v, hv, hle, -⟩ := parse?_eq_some_iff.mp hb
    exact h ⟨v, hv, hle⟩

end

/-! ## Reading on words -/

def wholeWord? (whole : List Char) : Option Nat :=
  (Word.digits? max64 whole).bind fun n => Word.checked max64 (n * perBeat)

/-- The nearest tick to a fraction. Nothing is checked, neither in 128 bits nor on the way to 64. -/
def fractionWord (numerator places : Nat) : Except Fault Nat := do
  let denominator ← Word.fit Word.max128 (tenTo places)
  let scaled ← Word.fit Word.max128 (numerator * perBeat)
  let raised ← Word.fit Word.max128 (scaled + denominator / 2)
  Word.fit max64 (raised / denominator)

def parseWord (s : List Char) : Except Fault (Option Beat) :=
  match Text.cut '.' s with
  | none => .ok (if isDigits s then (wholeWord? s).bind ofTicks? else none)
  | some (whole, decimals) =>
    if isDigits whole && isDigits decimals && decimals.length ≤ maxDecimals then
      match wholeWord? whole, Word.digits? Word.max128 decimals with
      | some ticks, some numerator =>
        (fractionWord numerator decimals.length).map fun rounded => ofTicks? (ticks + rounded)
      | _, _ => .ok none
    else .ok none

theorem wholeWord?_eq (whole : List Char) :
    wholeWord? whole = Word.checked max64 (digitsValue whole * perBeat) := by
  unfold wholeWord?
  rw [Word.digits?_eq]
  by_cases h : digitsValue whole ≤ max64
  · rw [Word.checked_of_le h, Option.bind_some]
  · have hle : digitsValue whole ≤ digitsValue whole * perBeat :=
      Nat.le_mul_of_pos_right _ (by decide)
    rw [Word.checked_of_lt (by omega), Word.checked_of_lt (by omega), Option.bind_none]

theorem ticksOf_nil (whole : List Char) : ticksOf whole [] = digitsValue whole * perBeat :=
  Nat.add_zero _

/-- Of 24 digits and fewer nothing outgrows its word, and the tick is the nearest one. -/
theorem fractionWord_eq {numerator places : Nat} (hp : 0 < places) (hl : places ≤ maxDecimals)
    (hn : numerator < 10 ^ places) :
    fractionWord numerator places = .ok (roundUp (numerator * perBeat) (tenTo places)) := by
  have hten : tenTo places = 10 ^ places := rfl
  have hbeat : perBeat = 960 := rfl
  have hmax : Word.max128 = 2 ^ 128 - 1 := rfl
  have hmax64 : max64 = 2 ^ 64 - 1 := rfl
  have htop : 10 ^ places ≤ 10 ^ 24 := Nat.pow_le_pow_right (by decide) hl
  obtain ⟨half, hhalf⟩ : 2 ∣ 10 ^ places := dvd_pow (by decide) hp.ne'
  have hround : (numerator * 960 + 10 ^ places / 2) / 10 ^ places =
      roundUp (numerator * 960) (10 ^ places) := by
    unfold roundUp
    rw [hhalf, Nat.mul_div_cancel_left _ (by decide)]
    have hnum : 2 * (numerator * 960) + 2 * half = 2 * (numerator * 960 + half) := by ring
    rw [hnum, Nat.mul_div_mul_left _ _ (by decide)]
  have hsmall : (numerator * 960 + 10 ^ places / 2) / 10 ^ places < 961 := by
    apply Nat.div_lt_of_lt_mul
    omega
  unfold fractionWord
  rw [hten, hbeat, Word.fit_of_le (by omega)]
  show (Word.fit _ _ >>= _) = _
  rw [Word.fit_of_le (by omega)]
  show (Word.fit _ _ >>= _) = _
  rw [Word.fit_of_le (by omega)]
  show Word.fit _ _ = _
  rw [Word.fit_of_le (by omega), hround]

theorem checked_bind_ofTicks? (n : Nat) : (Word.checked max64 n).bind ofTicks? = ofTicks? n := by
  by_cases h : n ≤ max64
  · rw [Word.checked_of_le h, Option.bind_some]
  · rw [Word.checked_of_lt (by omega), ofTicks?, dif_neg h, Option.bind_none]

theorem parseWord_eq (s : List Char) : parseWord s = .ok (parse? s) := by
  unfold parseWord parse?
  cases hcut : Text.cut '.' s with
  | none =>
    simp only
    rw [wholeWord?_eq, ticksOf_nil, checked_bind_ofTicks?]
  | some parts =>
    obtain ⟨whole, decimals⟩ := parts
    simp only
    split
    · rename_i hd
      simp only [Bool.and_eq_true, decide_eq_true_eq] at hd
      obtain ⟨⟨-, hf⟩, hl⟩ := hd
      obtain ⟨hne, hf⟩ := isDigits_iff.mp hf
      have hfits : digitsValue decimals ≤ Word.max128 := by
        have hvalue := digitsValue_lt hf
        have htop : 10 ^ decimals.length ≤ 10 ^ 24 := Nat.pow_le_pow_right (by decide) hl
        have hmax : Word.max128 = 2 ^ 128 - 1 := rfl
        omega
      rw [wholeWord?_eq, Word.digits?_eq, Word.checked_of_le hfits]
      by_cases hw : digitsValue whole * perBeat ≤ max64
      · rw [Word.checked_of_le hw]
        simp only
        rw [fractionWord_eq (List.length_pos_iff.mpr hne) hl (digitsValue_lt hf)]
        rfl
      · -- too large already without the fraction
        have hlarge : ¬ticksOf whole decimals ≤ max64 := by
          unfold ticksOf
          omega
        rw [Word.checked_of_lt (by omega), ofTicks?, dif_neg hlarge]
    · rfl

/-- Exactly the lengths of the grammar that fit are read, each as its nearest tick. -/
theorem parse?_exact (t : List Char) :
    (∀ b, parse? t = some b ↔ ∃ v, Notated t v ∧
      ⌊v * 960 + 1 / 2⌋₊ ≤ 2 ^ 64 - 1 ∧ b.ticks = ⌊v * 960 + 1 / 2⌋₊) ∧
      (parse? t = none ↔ ¬∃ v, Notated t v ∧ ⌊v * 960 + 1 / 2⌋₊ ≤ 2 ^ 64 - 1) ∧
      parseWord t = .ok (parse? t) :=
  ⟨fun _ => parse?_eq_some_iff, parse?_eq_none_iff, parseWord_eq t⟩

end ScoreSynth.Beat
