import ScoreSynth.Proofs.Number.Shortest

/-!
# Nearest numbers

Rounding to a width is monotone, does nothing to the numbers of the width, and takes back every
decimal that reads back to the number it was written for.
-/

namespace ScoreSynth.Number

/-! ## Rounding to a natural -/

section
variable {num den : Nat}

/-- A half is rounded to an even natural. -/
theorem even_roundEven (num : Nat) (hd : 0 < den) (h : 1 / 2 ≤ |(roundEven num den : ℚ) - num / den|) :
    roundEven num den % 2 = 0 := by
  have hdq : (0 : ℚ) < den := by exact_mod_cast hd
  have hq : (num : ℚ) = den * (num / den : Nat) + (num % den : Nat) := by
    exact_mod_cast (Nat.div_add_mod num den).symm
  have hv : (num : ℚ) / den = (num / den : Nat) + (num % den : Nat) / den := by
    rw [hq]; field_simp
  have hm : ((num % den : Nat) : ℚ) / den < 1 := by
    rw [div_lt_one hdq]; exact_mod_cast Nat.mod_lt num hd
  have hnn : (0 : ℚ) ≤ ((num % den : Nat) : ℚ) / den := by positivity
  rw [hv] at h
  unfold roundEven at h ⊢
  simp only at h ⊢
  split at h
  · rename_i hr
    have : ((num % den : Nat) : ℚ) / den < 1 / 2 := by
      rw [div_lt_div_iff₀ hdq two_pos]; exact_mod_cast by omega
    rw [le_abs] at h
    rcases h with h | h <;> linarith
  · split at h
    · rename_i hr
      have : (1 : ℚ) / 2 < ((num % den : Nat) : ℚ) / den := by
        rw [div_lt_div_iff₀ two_pos hdq]; exact_mod_cast by omega
      rw [le_abs] at h
      push_cast at h
      rcases h with h | h <;> linarith
    · rename_i h1 h2
      rw [if_neg h1, if_neg h2]
      omega

/-- A natural within a half is the nearest, at the very half if it is even. -/
theorem roundEven_eq {m : Nat} (hd : 0 < den) (h : |(num : ℚ) / den - m| ≤ 1 / 2)
    (htie : |(num : ℚ) / den - m| = 1 / 2 → m % 2 = 0) : roundEven num den = m := by
  have he := roundEven_error num hd
  have heven := even_roundEven num hd
  generalize roundEven num den = r at *
  obtain ⟨h1, h2⟩ := abs_le.mp h
  obtain ⟨h3, h4⟩ := abs_le.mp he
  by_contra hne
  -- two different naturals within a half are neighbours, and the value lies in their middle
  rcases Nat.lt_or_gt_of_ne hne with hlt | hgt
  · have hs : (r : ℚ) + 1 ≤ m := by exact_mod_cast hlt
    have hm : m = r + 1 := by
      have : (m : ℚ) ≤ (r + 1 : Nat) := by push_cast; linarith
      exact le_antisymm (by exact_mod_cast this) hlt
    have := htie (by rw [abs_of_nonpos] <;> linarith)
    have := heven (by rw [abs_of_nonpos] <;> linarith)
    omega
  · have hs : (m : ℚ) + 1 ≤ r := by exact_mod_cast hgt
    have hr : r = m + 1 := by
      have : (r : ℚ) ≤ (m + 1 : Nat) := by push_cast; linarith
      exact le_antisymm (by exact_mod_cast this) hgt
    have := htie (by rw [abs_of_nonneg] <;> linarith)
    have := heven (by rw [abs_of_nonneg] <;> linarith)
    omega

theorem roundEven_mono {num' den' : Nat} (hd : 0 < den) (hd' : 0 < den')
    (h : (num : ℚ) / den ≤ num' / den') : roundEven num den ≤ roundEven num' den' := by
  have he := roundEven_error num hd
  have he' := roundEven_error num' hd'
  have heven := even_roundEven num hd
  have heven' := even_roundEven num' hd'
  generalize roundEven num den = r at *
  generalize roundEven num' den' = r' at *
  obtain ⟨h1, h2⟩ := abs_le.mp he
  obtain ⟨h3, h4⟩ := abs_le.mp he'
  by_contra hgt
  have hs : (r' : ℚ) + 1 ≤ r := by exact_mod_cast not_le.mp hgt
  have hr : r = r' + 1 := by
    have : (r : ℚ) ≤ (r' + 1 : Nat) := by push_cast; linarith
    exact le_antisymm (by exact_mod_cast this) (not_le.mp hgt)
  have := heven (by rw [abs_of_nonneg] <;> linarith)
  have := heven' (by rw [abs_of_nonpos] <;> linarith)
  omega

end

namespace Binary

/-! ## The unit -/

section
variable {w : Width} {num den : Nat}

/-- The unit is the only one in which the value has neither too many bits nor too few. -/
theorem unitExponent_eq {e : Int} (hn : 0 < num) (hd : 0 < den) (hl : w.least ≤ e)
    (hlt : (num : ℚ) / den < 2 ^ w.bits * 2 ^ e)
    (hle : e = w.least ∨ (2 : ℚ) ^ w.bits * 2 ^ e ≤ 2 * (num / den)) :
    unitExponent w num den = e := by
  have h1 := exponent_nearest_le hd hl hlt
  rw [nearest_of_pos hn] at h1
  refine le_antisymm h1 ?_
  rcases hle with rfl | hle
  · exact least_le_unitExponent w num den
  · have hu := lt_two_zpow_unitExponent w hn hd
    have hb : (0 : ℚ) < 2 ^ w.bits := by positivity
    have hlt2 : (2 : ℚ) ^ w.bits * 2 ^ e < 2 ^ w.bits * 2 ^ (unitExponent w num den + 1) := by
      rw [zpow_add₀ two_ne_zero, zpow_one]
      linarith
    have := (zpow_lt_zpow_iff_right₀ (one_lt_two : (1 : ℚ) < 2)).mp
      (lt_of_mul_lt_mul_left hlt2 hb.le)
    omega

structure OfWidth (w : Width) (x : Binary) : Prop where
  least_le : w.least ≤ x.exponent
  le : x.significand ≤ 2 ^ w.bits
  full : x.exponent = w.least ∨ 2 ^ w.bits ≤ 2 * x.significand

theorem ofWidth_nearest (hw : 0 < w.bits) (num : Nat) (hd : 0 < den) :
    (nearest w num den).OfWidth w := by
  refine ⟨least_le_exponent_nearest w num den, nearest_significand_le w num hd, ?_⟩
  rcases Nat.eq_zero_or_pos num with rfl | hn
  · exact .inl rfl
  rw [nearest_of_pos hn]
  refine (unitExponent_le w hn hd).imp_right fun hu => ?_
  have he := roundEven_error (scaled num den (unitExponent w num den)).1
    (scaled_pos num (unitExponent w num den) hd)
  rw [scaled_value] at he
  generalize (roundEven _ _ : Nat) = r at he ⊢
  have hv : (2 : ℚ) ^ w.bits / 2 ≤ num / den / 2 ^ unitExponent w num den := by
    rw [le_div_iff₀ (two_zpow_pos _)]
    linarith
  have hr := (abs_le.mp he).1
  obtain ⟨b, hb⟩ := Nat.exists_eq_add_of_lt hw
  have hpow : 2 ^ w.bits = 2 * 2 ^ b := by rw [hb, Nat.zero_add, pow_succ]; ring
  have hq : ((2 : ℚ) ^ w.bits) = 2 * (2 ^ b : Nat) := by exact_mod_cast hpow
  have hlt : ((2 ^ b : Nat) : ℚ) < (r + 1 : Nat) := by push_cast at hq ⊢; linarith
  have : 2 ^ b < r + 1 := by exact_mod_cast hlt
  show 2 ^ w.bits ≤ 2 * r
  omega

/-! ## Order -/

theorem nearest_mono {num' den' : Nat} (hw : 0 < w.bits) (hd : 0 < den) (hd' : 0 < den')
    (h : (num : ℚ) / den ≤ num' / den') :
    (nearest w num den).value ≤ (nearest w num' den').value := by
  rcases Nat.eq_zero_or_pos num with rfl | hn
  · simpa [nearest, value] using value_nonneg (nearest w num' den')
  have hn' : 0 < num' := by
    rcases Nat.eq_zero_or_pos num' with rfl | hn'
    · have : (0 : ℚ) < num / den := by positivity
      simp only [Nat.cast_zero, zero_div] at h
      linarith
    · exact hn'
  have hlt := h.trans_lt (lt_two_zpow_unitExponent w hn' hd')
  have hle := exponent_nearest_le hd (least_le_unitExponent w num' den') hlt
  rw [nearest_of_pos hn] at hle
  rcases hle.eq_or_lt with he | he
  · -- one unit for both
    rw [nearest_of_pos hn, nearest_of_pos hn']
    simp only at he
    simp only [value, he]
    refine mul_le_mul_of_nonneg_right ?_ (two_zpow_pos _).le
    have hs := scaled_pos num (unitExponent w num' den') hd
    have hs' := scaled_pos num' (unitExponent w num' den') hd'
    refine Nat.cast_le.mpr (roundEven_mono hs hs' ?_)
    rw [scaled_value, scaled_value]
    exact div_le_div_of_nonneg_right h (two_zpow_pos _).le
  · -- the smaller value stays below the least full significand of the larger unit
    have hsig := nearest_significand_le w num hd
    have hfull := (ofWidth_nearest hw num' hd').full
    rw [nearest_of_pos hn] at hsig
    rw [nearest_of_pos hn'] at hfull
    have hfull := hfull.resolve_left
      fun h => absurd (least_le_unitExponent w num den) (by simp only at h he; omega)
    rw [nearest_of_pos hn, nearest_of_pos hn']
    simp only at he hsig hfull
    simp only [value]
    generalize (roundEven (scaled num den _).1 _ : Nat) = r at *
    generalize (roundEven (scaled num' den' _).1 _ : Nat) = r' at *
    have h1 : (r : ℚ) ≤ 2 ^ w.bits := by exact_mod_cast hsig
    have h2 : (2 : ℚ) ^ w.bits ≤ 2 * r' := by exact_mod_cast hfull
    calc (r : ℚ) * 2 ^ unitExponent w num den
        ≤ 2 * r' * 2 ^ unitExponent w num den := by gcongr; exact h1.trans h2
      _ = r' * 2 ^ (unitExponent w num den + 1) := by
        rw [zpow_add₀ two_ne_zero, zpow_one]; ring
      _ ≤ r' * 2 ^ unitExponent w num' den' := by
        gcongr
        · exact one_le_two
        · omega

/-! ## Numbers of the width -/

section
variable {e : Int} {m : Nat}

theorem zpow_succ_two (e : Int) : (2 : ℚ) ^ (e + 1) = 2 * 2 ^ e := by
  rw [zpow_add₀ two_ne_zero, zpow_one, mul_comm]

theorem num_pos_of_quotient (h : (0 : ℚ) < num / den) : 0 < num := by
  rcases Nat.eq_zero_or_pos num with rfl | hn
  · simp at h
  · exact hn

/-- In its unit, a quotient is rounded to the natural that is nearest to it. -/
theorem nearest_within (hd : 0 < den) (hl : w.least ≤ e) (hpos : (0 : ℚ) < num / den)
    (hlt : (num : ℚ) / den < 2 ^ w.bits * 2 ^ e)
    (hle : e = w.least ∨ (2 : ℚ) ^ w.bits * 2 ^ e ≤ 2 * (num / den))
    (h : |(num : ℚ) / den - m * 2 ^ e| ≤ 2 ^ e / 2)
    (htie : |(num : ℚ) / den - m * 2 ^ e| = 2 ^ e / 2 → m % 2 = 0) :
    (nearest w num den).value = m * 2 ^ e := by
  have hn := num_pos_of_quotient hpos
  have hp := two_zpow_pos e
  have hs := scaled_pos num e hd
  have herr : |(num : ℚ) / den / 2 ^ e - m| = |(num : ℚ) / den - m * 2 ^ e| / 2 ^ e := by
    rw [← abs_of_pos hp, ← abs_div, abs_of_pos hp, sub_div, mul_div_cancel_right₀ _ hp.ne']
  rw [nearest_of_pos hn, unitExponent_eq hn hd hl hlt hle, roundEven_eq (m := m) hs]
  · rfl
  · rw [scaled_value, herr, div_le_iff₀ hp]
    linarith
  · rw [scaled_value, herr, div_eq_iff hp.ne']
    exact fun h => htie (by linarith)

/-- A little above the full significand of a unit, a quotient is rounded to it. -/
theorem nearest_above (hw : 0 < w.bits) (hd : 0 < den) (hl : w.least ≤ e)
    (hge : (2 : ℚ) ^ w.bits * 2 ^ e ≤ num / den)
    (hle : (num : ℚ) / den ≤ (2 ^ w.bits + 1 / 2) * 2 ^ e) :
    (nearest w num den).value = 2 ^ w.bits * 2 ^ e := by
  have hp := two_zpow_pos e
  have hup := zpow_succ_two e
  have hone : (1 : ℚ) ≤ 2 ^ w.bits := one_le_pow₀ one_le_two
  have hone' := mul_le_mul_of_nonneg_right hone hp.le
  obtain ⟨b, hb⟩ := Nat.exists_eq_add_of_lt hw
  have hhalf : (2 : ℚ) ^ w.bits * 2 ^ e = (2 ^ b : Nat) * 2 ^ (e + 1) := by
    rw [hup, hb, Nat.zero_add, pow_succ]
    push_cast
    ring
  have hdist : |(num : ℚ) / den - (2 ^ b : Nat) * 2 ^ (e + 1)| < 2 ^ (e + 1) / 2 := by
    rw [← hhalf, hup, abs_of_nonneg (sub_nonneg.mpr hge)]
    linarith
  rw [hhalf]
  refine nearest_within hd (by omega) ?_ ?_ (.inr ?_) hdist.le fun h => absurd h hdist.ne
  · linarith
  · rw [hup]
    linarith
  · rw [hup]
    linarith

/-- A little below the least full significand of a unit, a quotient is rounded to it. -/
theorem nearest_below (hw : 0 < w.bits) (hd : 0 < den) (hl : w.least < e)
    (hlt : 2 * ((num : ℚ) / den) < 2 ^ w.bits * 2 ^ e)
    (hge : ((2 : ℚ) ^ w.bits - 1 / 2) * 2 ^ e ≤ 2 * (num / den)) :
    2 * (nearest w num den).value = 2 ^ w.bits * 2 ^ e := by
  have hdown : (2 : ℚ) ^ e = 2 * 2 ^ (e - 1) := by rw [← zpow_succ_two, sub_add_cancel]
  have hp := two_zpow_pos (e - 1)
  have hone : (1 : ℚ) ≤ 2 ^ w.bits := one_le_pow₀ one_le_two
  have hone' := mul_le_mul_of_nonneg_right hone hp.le
  rw [hdown] at hlt hge
  have heven : 2 ^ w.bits % 2 = 0 := by
    obtain ⟨b, hb⟩ := Nat.exists_eq_add_of_lt hw
    rw [hb, Nat.zero_add, pow_succ, Nat.mul_mod_left]
  have hdist : |(num : ℚ) / den - (2 ^ w.bits : Nat) * 2 ^ (e - 1)| ≤ 2 ^ (e - 1) / 2 := by
    rw [Nat.cast_pow, Nat.cast_ofNat, abs_of_nonpos (by linarith)]
    linarith
  have hlt' : (num : ℚ) / den < 2 ^ w.bits * 2 ^ (e - 1) := by linarith
  have hle : (2 : ℚ) ^ w.bits * 2 ^ (e - 1) ≤ 2 * (num / den) := by linarith
  have hpos : (0 : ℚ) < num / den := by linarith
  have := nearest_within hd (by omega) hpos hlt' (.inr hle) hdist fun _ => heven
  rw [this, hdown]
  push_cast
  ring

end

section
variable {x : Binary}

theorem OfWidth.two_mul_value_ge (hx : x.OfWidth w) :
    x.exponent = w.least ∨ (2 : ℚ) ^ w.bits * 2 ^ x.exponent ≤ 2 * x.value := by
  refine hx.full.imp_right fun h => ?_
  have h : (2 : ℚ) ^ w.bits ≤ 2 * x.significand := by exact_mod_cast h
  rw [value, ← mul_assoc]
  exact mul_le_mul_of_nonneg_right h (two_zpow_pos _).le

/-- A number of the width is not rounded. -/
theorem nearest_of_ofWidth (hx : x.OfWidth w) (hw : 0 < w.bits) (hd : 0 < den)
    (hv : (num : ℚ) / den = x.value) : (nearest w num den).value = x.value := by
  have hp := two_zpow_pos x.exponent
  rcases Nat.eq_zero_or_pos x.significand with h0 | hpos
  · have hnum : num = 0 := by
      rw [value, h0, Nat.cast_zero, zero_mul, div_eq_zero_iff] at hv
      exact_mod_cast hv.resolve_right (by exact_mod_cast hd.ne')
    simp [hnum, nearest, value, h0]
  rcases hx.le.eq_or_lt with hfull | hlt
  · have hs : x.value = 2 ^ w.bits * 2 ^ x.exponent := by rw [value, hfull]; push_cast; rfl
    rw [hs] at hv ⊢
    refine nearest_above hw hd hx.least_le hv.ge ?_
    rw [hv]
    exact mul_le_mul_of_nonneg_right (by linarith) hp.le
  · have herr : |(num : ℚ) / den - x.significand * 2 ^ x.exponent| < 2 ^ x.exponent / 2 := by
      rw [hv, value, sub_self, abs_zero]
      positivity
    refine nearest_within hd hx.least_le ?_ ?_ ?_ herr.le fun h => absurd h herr.ne
    · exact hv ▸ value_pos hpos
    · rw [hv]
      exact mul_lt_mul_of_pos_right (by exact_mod_cast hlt) hp
    · exact hv ▸ hx.two_mul_value_ge

theorem nearest_le (hx : x.OfWidth w) (hw : 0 < w.bits) (hd : 0 < den)
    (h : (num : ℚ) / den ≤ x.value) : (nearest w num den).value ≤ x.value := by
  rw [← nearest_of_ofWidth hx hw x.ratio_pos x.ratio_value]
  exact nearest_mono hw hd x.ratio_pos (by rwa [x.ratio_value])

theorem le_nearest (hx : x.OfWidth w) (hw : 0 < w.bits) (hd : 0 < den)
    (h : x.value ≤ (num : ℚ) / den) : x.value ≤ (nearest w num den).value := by
  rw [← nearest_of_ofWidth hx hw x.ratio_pos x.ratio_value]
  exact nearest_mono hw x.ratio_pos hd (by rwa [x.ratio_value])

/-- The powers of two from the least full number on are numbers of the width. -/
theorem exists_ofWidth_zpow (hw : 0 < w.bits) {k : Int} (hk : w.least + w.bits ≤ k + 1) :
    ∃ x : Binary, x.OfWidth w ∧ x.value = 2 ^ k := by
  obtain ⟨b, hb⟩ := Nat.exists_eq_add_of_lt hw
  have hbits : w.bits = b + 1 := by omega
  have hpow : 2 ^ w.bits = 2 * 2 ^ b := by rw [hbits, pow_succ, mul_comm]
  have hle : w.least ≤ k - b := by omega
  refine ⟨⟨2 ^ b, k - b⟩, ⟨hle, by simp only; omega, .inr hpow.le⟩, ?_⟩
  show ((2 ^ b : Nat) : ℚ) * 2 ^ (k - b) = 2 ^ k
  rw [Nat.cast_pow, Nat.cast_ofNat, ← zpow_natCast, ← zpow_add₀ two_ne_zero, add_sub_cancel]

theorem nearest_le_zpow (hw : 0 < w.bits) {k : Int} (hk : w.least + w.bits ≤ k + 1) (hd : 0 < den)
    (h : (num : ℚ) / den ≤ 2 ^ k) : (nearest w num den).value ≤ 2 ^ k := by
  obtain ⟨x, hx, hv⟩ := exists_ofWidth_zpow hw hk
  rw [← hv] at h ⊢
  exact nearest_le hx hw hd h

theorem zpow_le_nearest (hw : 0 < w.bits) {k : Int} (hk : w.least + w.bits ≤ k + 1) (hd : 0 < den)
    (h : 2 ^ k ≤ (num : ℚ) / den) : 2 ^ k ≤ (nearest w num den).value := by
  obtain ⟨x, hx, hv⟩ := exists_ofWidth_zpow hw hk
  rw [← hv] at h ⊢
  exact le_nearest hx hw hd h

section
variable {d : Nat} {k : Int} (hpos : 0 < x.significand) (hback : readsBack w x d k = true)
include hpos hback

/-- Half a unit off an odd significand, a decimal does not read back. -/
theorem readsBack_even (h : |(d : ℚ) * 10 ^ k - x.value| = 2 ^ x.exponent / 2) :
    x.significand % 2 = 0 := by
  by_contra hodd
  have hp := two_zpow_pos (x.exponent - 2)
  have hq : (quartersBelow w x : ℚ) ≤ 2 := by exact_mod_cast (quartersBelow_bounds w x).2
  have hb := mul_le_mul_of_nonneg_right hq hp.le
  rw [readsBack_iff, cast_quarters hpos, if_neg hodd] at hback
  rw [value_eq_quarters, zpow_eq_quarters x.exponent] at h
  push_cast at h hback
  obtain ⟨hl, hu⟩ := hback
  rcases (abs_eq (by positivity)).mp h with h | h <;> linarith

/-- Below a power of two only a decimal within a quarter of a unit reads back. -/
theorem readsBack_quarter (hsig : 2 * x.significand = 2 ^ w.bits) (hl : w.least < x.exponent)
    (hw : 0 < w.bits) : x.value - 2 ^ x.exponent / 4 ≤ (d : ℚ) * 10 ^ k := by
  have hquarters : quartersBelow w x = 1 := by
    obtain ⟨b, hb⟩ := Nat.exists_eq_add_of_lt hw
    rw [hb, Nat.zero_add, pow_succ] at hsig
    unfold quartersBelow
    refine if_pos ⟨?_, hl⟩
    rw [twoTo_eq, hb, Nat.zero_add, Nat.add_sub_cancel]
    omega
  rw [readsBack_iff, cast_quarters hpos, hquarters] at hback
  rw [value_eq_quarters, zpow_eq_quarters x.exponent]
  push_cast at hback ⊢
  split at hback <;> linarith [hback.1]

/-- A decimal that reads back as a number of the width is rounded to it. -/
theorem nearest_of_readsBack (hx : x.OfWidth w) (hw : 0 < w.bits) (hd : 0 < den)
    (hv : (num : ℚ) / den = d * 10 ^ k) : (nearest w num den).value = x.value := by
  have hp := two_zpow_pos x.exponent
  have herr := readsBack_error hpos hback
  obtain ⟨hel, heu⟩ := abs_le.mp herr
  have hval : x.value = x.significand * 2 ^ x.exponent := rfl
  have hone : (1 : ℚ) ≤ x.significand := by exact_mod_cast hpos
  have hone' := mul_le_mul_of_nonneg_right hone hp.le
  have hsig : (x.significand : ℚ) ≤ 2 ^ w.bits := by exact_mod_cast hx.le
  have hsig' := mul_le_mul_of_nonneg_right hsig hp.le
  rcases le_or_gt ((2 : ℚ) ^ w.bits * 2 ^ x.exponent) (num / den) with hhigh | hlow
  · -- the significand is full, or the decimal would be nearer to the next one
    have hs : x.significand = 2 ^ w.bits := by
      refine hx.le.eq_of_not_lt fun hlt => ?_
      have hlt : (x.significand : ℚ) + 1 ≤ 2 ^ w.bits := by exact_mod_cast hlt
      have := mul_le_mul_of_nonneg_right hlt hp.le
      linarith
    have hs' : (x.significand : ℚ) = 2 ^ w.bits := by rw [hs]; push_cast; rfl
    rw [hval, hs']
    exact nearest_above hw hd hx.least_le hhigh (by rw [hv]; rw [hval, hs'] at heu; linarith)
  · by_cases hin : x.exponent = w.least ∨ (2 : ℚ) ^ w.bits * 2 ^ x.exponent ≤ 2 * (num / den)
    · refine nearest_within hd hx.least_le ?_ hlow hin ?_ ?_
      · rw [hv]
        linarith
      · rw [hv]
        exact herr
      · rw [hv]
        exact readsBack_even hpos hback
    · -- the decimal is in the smaller unit below the least full significand
      obtain ⟨hne, hgt⟩ := not_or.mp hin
      have hgt := not_le.mp hgt
      have hfull := hx.full.resolve_left hne
      have hl := hx.least_le.lt_of_ne' hne
      have hs : 2 * x.significand = 2 ^ w.bits := by
        refine le_antisymm (not_lt.mp fun hlt => ?_) hfull
        have hlt : (2 : ℚ) ^ w.bits + 1 ≤ 2 * x.significand := by exact_mod_cast hlt
        have := mul_le_mul_of_nonneg_right hlt hp.le
        linarith
      have hs' : (2 : ℚ) * x.significand = 2 ^ w.bits := by exact_mod_cast hs
      have hge := readsBack_quarter hpos hback hs hl hw
      have h2 := nearest_below hw hd hl hgt (by
        rw [hv, ← hs']
        linarith)
      rw [← hs'] at h2
      linarith

end

end

end

end Binary

end ScoreSynth.Number
