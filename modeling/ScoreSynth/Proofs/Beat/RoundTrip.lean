import ScoreSynth.Proofs.Beat.Quotients

/-!
# Which lengths read back

Whole beats read back from what is written, however many they are, and so does every length up to
seven ticks past 2^42 beats; the next one is written as a decimal that is nearer to its neighbour.
From 2^52 beats on a double has no fraction left, so that only whole beats read back.
-/

namespace ScoreSynth

namespace Number.Binary

/-! ## The shortest decimal of a natural -/

section
variable {w : Width} {tieUp : Bool} {x : Binary} {n : Nat}

theorem grid_of_natural (hn : x.value = n) :
    x.ratio.1 * (decimalRatio 1 0).2 / (x.ratio.2 * (decimalRatio 1 0).1) = n := by
  have hone : decimalRatio 1 0 = (1, 1) := by decide
  have hq : (x.ratio.1 : ℚ) / x.ratio.2 = n := by rw [x.ratio_value, hn]
  have hd : (x.ratio.2 : ℚ) ≠ 0 := by exact_mod_cast x.ratio_pos.ne'
  rw [div_eq_iff hd] at hq
  have hnat : x.ratio.1 = n * x.ratio.2 := by exact_mod_cast hq
  rw [hone, mul_one, mul_one, hnat]
  exact Nat.mul_div_cancel n x.ratio_pos

theorem isSome_onGrid_of_natural (hx : 0 < x.significand) (hn : x.value = n) :
    (onGrid w tieUp x 0).isSome := by
  have hpos : 0 < n := by
    have h := value_pos hx
    rw [hn] at h
    exact_mod_cast h
  have hback : readsBack w x n 0 = true := by
    apply readsBack_of_near hx
    have hp := two_zpow_pos x.exponent
    rw [zpow_zero, mul_one, hn, sub_self, abs_zero]
    linarith
  unfold onGrid
  simp only [grid_of_natural hn, hback, hpos.ne', ne_eq, not_false_eq_true, decide_true,
    Bool.and_self, Bool.true_and, if_true]
  split <;> rfl

/-- The search is over at the naturals at the latest, so nothing is written behind a point. -/
theorem shortest_of_natural (w : Width) (tieUp : Bool) (hx : x.Ordinary) (hn : x.value = n)
    (hlt : x.value < 10 ^ (20 : Int)) :
    ∃ d k, x.shortest w tieUp = ofDecimal d k ∧ d ≠ 0 ∧ 0 ≤ k := by
  have hone : (1 : ℚ) ≤ x.value := by
    have h := value_pos hx.pos
    rw [hn] at h ⊢
    exact_mod_cast h
  obtain ⟨hpl, hpu⟩ := decimalPoint_spec hx
  have hp0 : 0 < x.decimalPoint := by
    have h : (10 : ℚ) ^ (0 : Int) < 10 ^ x.decimalPoint := by
      rw [zpow_zero]
      linarith
    exact (zpow_lt_zpow_iff_right₀ (by norm_num)).mp h
  have hp20 : x.decimalPoint - 1 < 20 :=
    (zpow_lt_zpow_iff_right₀ (by norm_num : (1 : ℚ) < 10)).mp (hpl.trans_lt hlt)
  -- the step at which the grid holds the naturals
  obtain ⟨m, hm⟩ := Int.eq_ofNat_of_zero_le (show 0 ≤ x.decimalPoint - 1 by omega)
  have hzero : x.decimalPoint - m - 1 = 0 := by omega
  let f := fun (i : Nat) => (onGrid w tieUp x (x.decimalPoint - i - 1)).map
    fun d => ofDecimal d (x.decimalPoint - i - 1)
  have hfm : (f m).isSome := by
    show (Option.map _ (onGrid w tieUp x (x.decimalPoint - m - 1))).isSome
    rw [hzero, Option.isSome_map]
    exact isSome_onGrid_of_natural hx.pos hn
  have hmem : m ∈ List.range 20 := List.mem_range.mpr (by omega)
  have hfound : ((List.range 20).findSome? f).isSome := by
    rw [List.isSome_findSome?, List.any_eq_true]
    exact ⟨m, hmem, hfm⟩
  obtain ⟨digits, hs⟩ := Option.isSome_iff_exists.mp hfound
  obtain ⟨before, i, after, hrange, hi, hnone⟩ := List.findSome?_eq_some_iff.mp hs
  obtain ⟨d, hd, rfl⟩ := Option.map_eq_some_iff.mp hi
  refine ⟨d, x.decimalPoint - i - 1, ?_, (onGrid_eq_some hd).1, ?_⟩
  · unfold shortest
    simp only
    rw [hs, Option.getD_some]
  · -- a later step would have passed over the naturals
    by_contra hneg
    have hsorted := List.pairwise_lt_range (n := 20)
    rw [hrange, List.pairwise_append, List.pairwise_cons] at hsorted
    rw [hrange, List.mem_append, List.mem_cons] at hmem
    rcases hmem with h | rfl | h
    · rw [hnone m h] at hfm
      cases hfm
    · omega
    · have := hsorted.2.1.1 m h
      omega

end

end Number.Binary

namespace Beat

open Number

/-! ## Lengths written without a point -/

theorem whole_of_parse? {whole : List Char} {b : Beat} (hw : ∀ c ∈ whole, c.isDigit = true)
    (h : parse? whole = some b) : b.ticks % perBeat = 0 := by
  have hcut : Text.cut '.' whole = none :=
    Text.cut_eq_none_iff.mpr fun hdot => absurd (hw _ hdot) (by decide)
  have hticks : ticksOf whole [] = digitsValue whole * perBeat := Nat.add_zero _
  unfold parse? at h
  simp only [hcut, hticks] at h
  split at h
  · unfold ofTicks? at h
    split at h
    · obtain rfl := Option.some.inj h
      exact Nat.mul_mod_left _ _
    · cases h
  · cases h

section
variable {b : Beat}

theorem le_quotient_of_large (h : 960 * 2 ^ 52 ≤ b.ticks) :
    (2 : ℚ) ^ (52 : Int) ≤ b.quotient.value := by
  let x : Binary := ⟨15 * 2 ^ 49, 9⟩
  have hx : x.OfWidth .double := ⟨by decide, by decide, .inr (by decide)⟩
  have hvalue : x.value = 960 * 2 ^ 52 := by norm_num [x, Binary.value]
  have hticks : x.value ≤ (b.ticks : ℚ) / (1 : Nat) := by
    rw [hvalue, Nat.cast_one, div_one]
    exact_mod_cast h
  have hn := Binary.le_nearest hx (by decide) Nat.one_pos hticks
  rw [quotient_eq_nearest]
  refine Binary.zpow_le_nearest (by decide) (by decide)
    (Nat.mul_pos (Binary.ratio_pos _) (by decide)) ?_
  rw [ratio_quotient]
  rw [hvalue] at hn
  norm_num at hn ⊢
  linarith

/-- A significand of 53 bits has no place behind the point from 2^52 on. -/
theorem exists_natural_quotient (h : 960 * 2 ^ 52 ≤ b.ticks) : ∃ n : Nat, b.quotient.value = n := by
  have hlow := le_quotient_of_large h
  have hsig : (b.quotient.significand : ℚ) ≤ 2 ^ 53 := by exact_mod_cast b.quotient_ofWidth.le
  unfold Binary.value at hlow ⊢
  rcases le_or_gt 0 b.quotient.exponent with he | he
  · obtain ⟨m, hm⟩ := Int.eq_ofNat_of_zero_le he
    refine ⟨b.quotient.significand * 2 ^ m, ?_⟩
    rw [hm, zpow_natCast]
    push_cast
    rfl
  · -- one bit more than the width has, all used up by the value
    have hunit : (2 : ℚ) ^ b.quotient.exponent ≤ 2 ^ (-1 : Int) :=
      zpow_le_zpow_right₀ one_le_two (by omega)
    have hup := mul_le_mul hsig hunit (Binary.two_zpow_pos _).le (by norm_num)
    refine ⟨2 ^ 52, le_antisymm ?_ ?_⟩
    · norm_num at hup ⊢
      linarith
    · norm_num at hlow ⊢
      linarith

theorem whole_of_large (h : 960 * 2 ^ 52 ≤ b.ticks) (hb : parse? b.write = some b) :
    b.ticks % perBeat = 0 := by
  by_contra hm
  have h0 : 0 < b.ticks := by omega
  obtain ⟨n, hn⟩ := exists_natural_quotient h
  have ho := quotient_ordinary h0
  have hlt : b.quotient.value < 10 ^ (20 : Int) := b.quotient_le.trans_lt (by norm_num)
  obtain ⟨d, k, hs, hd, hk⟩ := Binary.shortest_of_natural .double true ho hn hlt
  have hne := Binary.digits_ofDecimal_ne_nil hd k
  have hfraction : (Binary.ofDecimal d k).fraction = [] := by
    have hl := Binary.length_ofDecimal_le d k
    rw [← List.length_eq_zero_iff, Digits.length_fraction]
    omega
  have hwrite : b.write = (Binary.ofDecimal d k).whole := by
    have hnum := Layout.writePositional_eq hne
    rw [hfraction] at hnum
    have hwhole : numeral (Binary.ofDecimal d k).whole [] = (Binary.ofDecimal d k).whole := rfl
    rw [← hwhole, ← hnum, ← hs, write, if_neg hm, Layout.writeBinary, if_neg ho.pos.ne']
    rfl
  rw [hwrite] at hb
  refine hm (whole_of_parse? (fun c hc => ?_) hb)
  exact Digits.isDigit_of_mem_whole (fun c hc => Binary.isDigit_of_mem_ofDecimal hc) hc

/-! ## The bound -/

/-- Seven lengths more read back past 2^42 beats. -/
theorem parse?_write_of_le (h : b.ticks < 960 * 2 ^ 42 + 8) : parse? b.write = some b := by
  rcases Nat.lt_or_ge b.ticks (960 * 2 ^ 42) with hlt | hge
  · exact parse?_write_of_lt hlt
  · have hlast : ∀ n < 8, parse? (ofTicks (960 * 2 ^ 42 + n)).write =
        some (ofTicks (960 * 2 ^ 42 + n)) := by
      decide +kernel
    obtain ⟨n, hn⟩ := Nat.exists_eq_add_of_le hge
    have hb : b = ofTicks (960 * 2 ^ 42 + n) := by
      apply ext_ticks
      rw [← hn]
      exact (min_eq_left b.ticks_le).symm
    rw [hb]
    exact hlast n (by omega)

end

/-- Below the bound every length reads back, and from 2^52 beats on whole beats and no others. -/
theorem written_lengths_read_back (b : Beat) :
    (b.ticks % perBeat = 0 ∨ b.ticks < 960 * 2 ^ 42 + 8 → parse? b.write = some b) ∧
      (960 * 2 ^ 52 ≤ b.ticks → (parse? b.write = some b ↔ b.ticks % perBeat = 0)) := by
  constructor
  · rintro (hm | hlt)
    · exact parse?_write_of_whole hm
    · exact parse?_write_of_le hlt
  · intro h
    exact ⟨whole_of_large h, parse?_write_of_whole⟩

theorem written_lengths_read_back_ends :
    parse? (ofTicks (960 * 2 ^ 42 + 7)).write = some (ofTicks (960 * 2 ^ 42 + 7)) ∧
      parse? (ofTicks (2 ^ 64 - 1)).write ≠ some (ofTicks (2 ^ 64 - 1)) :=
  ⟨(written_lengths_read_back _).1 (.inr (by decide)), fun h =>
    absurd (((written_lengths_read_back _).2 (by decide)).mp h) (by decide)⟩

/-- The first length past the bound is written as 4398046511104.009, a tick longer. -/
theorem written_length_moves :
    (ofTicks (960 * 2 ^ 42 + 8)).write = "4398046511104.009".toList ∧
      parse? "4398046511104.009".toList = some (ofTicks (960 * 2 ^ 42 + 9)) ∧
      parse? (ofTicks (960 * 2 ^ 42 + 8)).write ≠ some (ofTicks (960 * 2 ^ 42 + 8)) := by
  decide +kernel

end Beat

end ScoreSynth
