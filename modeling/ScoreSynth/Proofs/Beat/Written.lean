import ScoreSynth.Beat
import ScoreSynth.Proofs.Number.Numeral
import ScoreSynth.Proofs.Number.Shortest
import ScoreSynth.Proofs.Text.Pieces

/-!
# Written beats

A length in beats is written as a numeral, and below 2^42 beats the numeral reads back as the same
length: the double next to the length and the decimal next to the double are each within 2^-12 of a
beat, less than half a tick together.
-/

namespace ScoreSynth.Beat

open Number

/-! ## Reading a numeral -/

section
variable {whole fraction : List Char}

theorem cut_numeral (hw : ∀ c ∈ whole, c.isDigit = true) : Text.cut '.' (numeral whole fraction) =
    if fraction.isEmpty then none else some (whole, fraction) := by
  have hdot : '.' ∉ whole := fun h => absurd (hw _ h) (by decide)
  unfold numeral
  split
  · exact Text.cut_eq_none_iff.mpr hdot
  · exact Text.cut_append_cons hdot fraction

theorem isDigits_of_mem {s : List Char} (hne : s ≠ []) (h : ∀ c ∈ s, c.isDigit = true) :
    isDigits s = true := by
  unfold isDigits
  simpa [hne] using h

theorem parse?_numeral (hne : whole ≠ []) (hw : ∀ c ∈ whole, c.isDigit = true)
    (hf : ∀ c ∈ fraction, c.isDigit = true) (hl : fraction.length ≤ maxDecimals) :
    parse? (numeral whole fraction) = ofTicks?
      ⌊((digitsValue whole : ℚ) + digitsValue fraction / 10 ^ fraction.length) * 960 + 1 / 2⌋₊ := by
  have ht : ticksOf whole fraction =
      ⌊((digitsValue whole : ℚ) + digitsValue fraction / 10 ^ fraction.length) * 960 + 1 / 2⌋₊ := by
    have hv : ((digitsValue whole : ℚ) + digitsValue fraction / 10 ^ fraction.length) * 960 + 1 / 2 =
        (digitsValue fraction * perBeat : Nat) / (tenTo fraction.length : Nat) + 1 / 2 +
          (digitsValue whole * perBeat : Nat) := by
      rw [tenTo_eq]
      simp only [perBeat]
      push_cast
      ring
    have hten : 0 < tenTo fraction.length := Nat.pow_pos (by decide)
    rw [hv, Nat.floor_add_natCast (by positivity), ← roundUp_eq_floor _ hten, Nat.add_comm]
    rfl
  rw [← ht]
  unfold parse?
  rw [cut_numeral hw]
  split
  · rename_i h
    have : fraction = [] := by
      by_contra hc
      simp [hc] at h
    subst this
    simp [numeral, isDigits_of_mem hne hw]
  · rename_i w f h
    have hfr : fraction ≠ [] := by
      rintro rfl
      simp at h
    rw [if_neg (by simpa using hfr), Option.some.injEq, Prod.mk.injEq] at h
    obtain ⟨rfl, rfl⟩ := h
    rw [isDigits_of_mem hne hw, isDigits_of_mem hfr hf, decide_eq_true hl]
    rfl

end

/-! ## What is written -/

structure Written (whole fraction : List Char) : Prop where
  ne_nil : whole ≠ []
  whole_digits : ∀ c ∈ whole, c.isDigit = true
  fraction_digits : ∀ c ∈ fraction, c.isDigit = true

theorem written_decimalText (n : Nat) : Written (decimalText n) [] :=
  ⟨decimalText_ne_nil n, fun _ hc => isDigit_of_mem_decimalText hc, nofun⟩

theorem written_digits {d : Digits} (hne : d.digits ≠ []) (hd : ∀ c ∈ d.digits, c.isDigit = true) :
    Written d.whole d.fraction :=
  ⟨d.whole_ne_nil hne, fun _ hc => d.isDigit_of_mem_whole hd hc,
    fun _ hc => d.isDigit_of_mem_fraction hd hc⟩

theorem write_eq_numeral (b : Beat) : ∃ whole fraction,
    Written whole fraction ∧ b.write = numeral whole fraction := by
  unfold write
  split
  · exact ⟨_, [], written_decimalText _, rfl⟩
  · have hw : ∀ d : Digits, Layout.plain.writeDigits d = Layout.writePositional "" d := fun _ => rfl
    unfold Layout.writeBinary
    split
    · exact ⟨['0'], [], ⟨List.cons_ne_nil _ _, by simp, nofun⟩, by rw [hw]; rfl⟩
    · obtain ⟨hne, hd⟩ := Binary.shortest_digits .double Layout.plain.tieUp b.quotient
      exact ⟨_, _, written_digits hne hd, by rw [hw, Layout.writePositional_eq hne]⟩

/-! ## Reading what is written -/

section
variable {b : Beat}

/-- Below 2^42 beats the unit of the nearest double is 2^-11 of a beat or finer. -/
theorem quotient_spec (h0 : 0 < b.ticks) (h : b.ticks < 960 * 2 ^ 42) :
    b.quotient.Ordinary ∧ b.quotient.exponent ≤ -11 ∧
      |b.quotient.value - b.ticks / 960| ≤ 2 ^ b.quotient.exponent / 2 := by
  have hx : (Binary.nearest .double b.ticks 1).value = b.ticks :=
    Binary.nearest_of_natural (by decide) (h.trans (by decide))
  have hq : b.quotient = (Binary.nearest .double b.ticks 1).divNat .double perBeat := rfl
  generalize Binary.nearest .double b.ticks 1 = x at hx hq
  rw [Binary.divNat_eq] at hq
  have hv : (x.ratio.1 : ℚ) / (x.ratio.2 * perBeat : Nat) = b.ticks / 960 := by
    rw [Binary.ratio_div_value, hx]
    rfl
  have hd : 0 < x.ratio.2 * perBeat := Nat.mul_pos x.ratio_pos (by decide)
  have herr := Binary.nearest_error .double x.ratio.1 hd
  have hsig := Binary.nearest_significand_le .double x.ratio.1 hd
  have hlow : -1074 ≤ b.quotient.exponent := by
    rw [hq]
    exact Binary.least_le_exponent_nearest .double x.ratio.1 (x.ratio.2 * perBeat)
  have hone : (1 : ℚ) ≤ b.ticks := by exact_mod_cast h0
  have hlt : (b.ticks : ℚ) < 960 * 2 ^ 42 := by exact_mod_cast h
  have hle : b.quotient.exponent ≤ -11 := by
    rw [hq]
    refine Binary.exponent_nearest_le hd (by decide) ?_
    have hw : Width.double.bits = 53 := rfl
    rw [hv, hw]
    norm_num
    linarith
  have hpos : 0 < b.quotient.significand := by
    rw [hq]
    refine Binary.significand_nearest_pos (by decide) hd ?_
    rw [hv]
    have htwo : (2 : ℚ) ^ Width.double.least ≤ 2 ^ (-10 : Int) :=
      zpow_le_zpow_right₀ one_le_two (by decide)
    norm_num at htwo
    linarith
  rw [← hq, hv] at herr
  rw [← hq] at hsig
  exact ⟨⟨hpos, hsig, by omega, by omega⟩, hle, herr⟩

/-- The shortest decimal of the double has few places and lies within half a tick. -/
theorem shortest_quotient (h0 : 0 < b.ticks) (h : b.ticks < 960 * 2 ^ 42) : ∃ d k,
    b.quotient.shortest .double true = Binary.ofDecimal d k ∧ d ≠ 0 ∧ -24 ≤ k ∧
      |(d : ℚ) * 10 ^ k * 960 - b.ticks| < 1 / 2 := by
  obtain ⟨ho, he, hq⟩ := quotient_spec h0 h
  obtain ⟨d, k, hs, hd, hback, hk, -⟩ := Binary.shortest_spec .double true ho
  have herr := Binary.readsBack_error ho.pos hback
  have htwo : (2 : ℚ) ^ b.quotient.exponent ≤ 2 ^ (-11 : Int) :=
    zpow_le_zpow_right₀ one_le_two he
  norm_num at htwo
  have hone : (1 : ℚ) ≤ b.ticks := by exact_mod_cast h0
  obtain ⟨hql, hqu⟩ := abs_le.mp hq
  obtain ⟨hel, heu⟩ := abs_le.mp herr
  have hp : -4 < b.quotient.decimalPoint := by
    have hlt := (Binary.decimalPoint_spec ho).2
    have hten : (10 : ℚ) ^ (-4 : Int) < 10 ^ b.quotient.decimalPoint := by
      norm_num
      linarith
    exact (zpow_lt_zpow_iff_right₀ (by norm_num)).mp hten
  refine ⟨d, k, hs, hd, by omega, ?_⟩
  rw [abs_lt]
  constructor <;> linarith

theorem parse?_of_near {whole fraction : List Char} (hw : Written whole fraction)
    (hl : fraction.length ≤ maxDecimals)
    (hv : |((digitsValue whole : ℚ) + digitsValue fraction / 10 ^ fraction.length) * 960 - b.ticks|
      < 1 / 2) : parse? (numeral whole fraction) = some b := by
  obtain ⟨hlow, hhigh⟩ := abs_lt.mp hv
  have hf : ⌊((digitsValue whole : ℚ) + digitsValue fraction / 10 ^ fraction.length) * 960
      + 1 / 2⌋₊ = b.ticks := by
    rw [Nat.floor_eq_iff (by positivity)]
    constructor <;> linarith
  rw [parse?_numeral hw.ne_nil hw.whole_digits hw.fraction_digits hl, hf, ofTicks?,
    dif_pos b.ticks_le]

/-- Whole beats of any number read back. -/
theorem parse?_write_of_whole (h : b.ticks % perBeat = 0) : parse? b.write = some b := by
  have hn : b.write = numeral (decimalText (b.ticks / perBeat)) [] := by
    rw [write, if_pos h]
    rfl
  rw [hn]
  refine parse?_of_near (written_decimalText _) (Nat.zero_le _) ?_
  have hv : (b.ticks : ℚ) = (b.ticks / perBeat : Nat) * 960 := by
    exact_mod_cast (Nat.div_mul_cancel (Nat.dvd_of_mod_eq_zero h)).symm
  rw [digitsValue_decimalText, hv]
  simp [digitsValue]

/-- A length below 2^42 beats reads back from its numeral. -/
theorem parse?_write_of_lt (h : b.ticks < 960 * 2 ^ 42) : parse? b.write = some b := by
  by_cases hm : b.ticks % perBeat = 0
  · exact parse?_write_of_whole hm
  · have h0 : 0 < b.ticks := Nat.pos_of_ne_zero fun h0 => hm (by rw [h0]; rfl)
    obtain ⟨d, k, hs, hd, hk, hnear⟩ := shortest_quotient h0 h
    have hpos : b.quotient.significand ≠ 0 := (quotient_spec h0 h).1.pos.ne'
    have hne := Binary.digits_ofDecimal_ne_nil hd k
    have hn : b.write =
        numeral (Binary.ofDecimal d k).whole (Binary.ofDecimal d k).fraction := by
      rw [← Layout.writePositional_eq hne, ← hs, write, if_neg hm, Layout.writeBinary, if_neg hpos]
      rfl
    rw [hn]
    refine parse?_of_near
      (written_digits hne fun c hc => Binary.isDigit_of_mem_ofDecimal hc) ?_ ?_
    · have hl := Binary.length_ofDecimal_le d k
      rw [Digits.length_fraction]
      unfold maxDecimals
      omega
    · rwa [← Digits.value_eq, Binary.value_ofDecimal]

theorem parse?_write (h : b.ticks < 2 ^ 51) : parse? b.write = some b :=
  parse?_write_of_lt (h.trans (by norm_num))

end

end ScoreSynth.Beat
