import ScoreSynth.Proofs.Number.Rounding

/-!
# The bits of doubles

A double has a sign bit, an exponent field and a fraction. What is taken out of the bits is in the
form that rounding gives, and such a number comes back from its bits unless it is too large.
-/

open Float.Model
open Float.Model.UnpackedFloat

namespace ScoreSynth.Number

/-! ## Out of bits -/

section
variable (b : BitVec Format.binary64.numBits)

theorem toNat_unpackMantissa : (unpackMantissa b).toNat = b.toNat % 2 ^ 52 := by
  simp [unpackMantissa]

theorem toNat_unpackExponent : (unpackExponent b).toNat = b.toNat / 2 ^ 52 % 2 ^ 11 := by
  simp [unpackExponent, Nat.shiftRight_eq_div_pow]

theorem toNat_unpackSign : (unpackSign b).toNat = b.toNat / 2 ^ 63 := by
  have hlt : b.toNat < 2 ^ 64 := b.isLt
  simp [unpackSign, Nat.shiftRight_eq_div_pow]
  omega

def signOf (n : Nat) : Sign := if n < 2 ^ 63 then .positive else .negative

theorem ofBitVec_unpackSign : Sign.ofBitVec (unpackSign b) = signOf b.toNat := by
  have h := toNat_unpackSign b
  refine if_congr ?_ rfl rfl
  rw [← BitVec.toNat_inj, h, BitVec.toNat_ofNat]
  omega

theorem unpack_eq : UnpackedFloat.unpack .binary64 b =
    if b.toNat / 2 ^ 52 % 2 ^ 11 = 2047 then
      if b.toNat % 2 ^ 52 = 0 then .infinity (signOf b.toNat) else .notANumber
    else if b.toNat / 2 ^ 52 % 2 ^ 11 = 0 then
      if h : b.toNat % 2 ^ 52 = 0 then .zero (signOf b.toNat)
      else .finite (signOf b.toNat) (b.toNat % 2 ^ 52) (-1074) (Nat.pos_of_ne_zero h)
    else
      .finite (signOf b.toNat) (2 ^ 52 + b.toNat % 2 ^ 52)
        ((b.toNat / 2 ^ 52 % 2 ^ 11 : Nat) - 1075) (by omega) := by
  have hm := toNat_unpackMantissa b
  have he := toNat_unpackExponent b
  have htop : unpackExponent b = -1#_ ↔ b.toNat / 2 ^ 52 % 2 ^ 11 = 2047 := by
    rw [← he, ← BitVec.toNat_inj]
    rfl
  have hzero : unpackExponent b = 0#_ ↔ b.toNat / 2 ^ 52 % 2 ^ 11 = 0 := by
    rw [← he, ← BitVec.toNat_inj]
    rfl
  have hfraction : unpackMantissa b = 0#_ ↔ b.toNat % 2 ^ 52 = 0 := by
    rw [← hm, ← BitVec.toNat_inj]
    rfl
  have himplicit : (1#1 ++ unpackMantissa b).toNat = 2 ^ 52 + b.toNat % 2 ^ 52 := by
    rw [BitVec.toNat_append, ← Nat.shiftLeft_add_eq_or_of_lt (unpackMantissa b).isLt, hm]
    rfl
  unfold UnpackedFloat.unpack
  simp only [htop, hzero, hfraction, himplicit, he, hm, ofBitVec_unpackSign]
  by_cases h1 : b.toNat / 2 ^ 52 % 2 ^ 11 = 2047
  · rw [if_pos h1, if_pos h1]
  · rw [if_neg h1, if_neg h1]
    by_cases h2 : b.toNat / 2 ^ 52 % 2 ^ 11 = 0
    · simp only [h2]
      rfl
    · rw [if_neg h2, if_neg h2]
      rfl

end

/-! ## Into bits and back -/

section
variable (s : Sign)

theorem signOf_packComponents (e : BitVec 11) (m : BitVec 52) :
    signOf (packComponents .binary64 s e m).toNat = s := by
  rw [← ofBitVec_unpackSign, unpackSign_packComponents, Sign.ofBitVec_toBitVec]

theorem fraction_packComponents (e : BitVec 11) (m : BitVec 52) :
    (packComponents .binary64 s e m).toNat % 2 ^ 52 = m.toNat := by
  rw [← toNat_unpackMantissa, unpackMantissa_packComponents]

theorem field_packComponents (e : BitVec 11) (m : BitVec 52) :
    (packComponents .binary64 s e m).toNat / 2 ^ 52 % 2 ^ 11 = e.toNat := by
  rw [← toNat_unpackExponent, unpackExponent_packComponents]

theorem unpack_pack_zero : (Float.Model.pack (.zero s)).unpack = .zero s := unpack_packedZero

theorem unpack_pack_infinity : (Float.Model.pack (.infinity s)).unpack = .infinity s := by
  cases s <;> rfl

variable {m : Nat} {e : Int}

theorem pack_finite (hm : 0 < m) (hlt : m < 2 ^ 53) :
    UnpackedFloat.pack .binary64 (.finite s m e hm) =
      if 971 < e then packedInfinity .binary64 s
      else if 2 ^ 52 ≤ m then
        packComponents .binary64 s (BitVec.ofNat 11 (e + 1075).toNat) (BitVec.ofNat 52 m)
      else packComponents .binary64 s 0#11 (BitVec.ofNat 52 m) := by
  have hlog : m.log2 + 1 = 53 ↔ 2 ^ 52 ≤ m := by
    rw [← Nat.le_log2 hm.ne']
    have := (Nat.log2_lt hm.ne').mpr hlt
    omega
  have hover : 2 ^ 11 ≤ (e + 1023 + 52).toNat + 1 ↔ 971 < e := by omega
  have hsum : e + 1023 + 52 = e + 1075 := by omega
  show (if 2 ^ 11 ≤ (e + 1023 + 52).toNat + 1 then packedInfinity .binary64 s
    else if m.log2 + 1 = 53 then _ else _) = _
  simp only [hover, hlog]
  rw [← hsum]
  rfl

theorem unpack_pack_finite (hm : 0 < m) (hlt : m < 2 ^ 53) (hle : -1074 ≤ e)
    (hfull : e = -1074 ∨ 2 ^ 52 ≤ m) :
    (Float.Model.pack (.finite s m e hm)).unpack =
      if 971 < e then .infinity s else .finite s m e hm := by
  show UnpackedFloat.unpack .binary64 (UnpackedFloat.pack .binary64 (.finite s m e hm)) = _
  rw [pack_finite s hm hlt]
  by_cases hover : 971 < e
  · rw [if_pos hover, if_pos hover]
    exact unpack_pack_infinity s
  rw [if_neg hover, if_neg hover]
  by_cases hnormal : 2 ^ 52 ≤ m
  · have hfield : (BitVec.ofNat 11 (e + 1075).toNat).toNat = (e + 1075).toNat := by
      rw [BitVec.toNat_ofNat]
      omega
    have hfraction : 2 ^ 52 + (BitVec.ofNat 52 m).toNat = m := by
      rw [BitVec.toNat_ofNat]
      omega
    have hexponent : (((e + 1075).toNat : Nat) : Int) - 1075 = e := by omega
    rw [if_pos hnormal, unpack_eq]
    simp only [field_packComponents, fraction_packComponents, signOf_packComponents, hfield,
      hfraction, hexponent]
    rw [if_neg (by omega), if_neg (by omega)]
  · have hfraction : (BitVec.ofNat 52 m).toNat = m := by
      rw [BitVec.toNat_ofNat]
      omega
    rw [if_neg hnormal, unpack_eq]
    simp only [field_packComponents, fraction_packComponents, signOf_packComponents, hfraction]
    rw [if_neg (by decide), if_pos (by decide), dif_neg hm.ne']
    simp only [hfull.resolve_right hnormal]

end

/-! ## The numbers of a register -/

section
variable {x : Float} {s : Sign} {m : Nat} {e : Int} {hm : 0 < m}

theorem bits_of_finite (h : x.toModel.unpack = .finite s m e hm) :
    signOf x.toBits.toNat = s ∧
      (x.toBits.toNat / 2 ^ 52 % 2 ^ 11 = 0 ∧ m = x.toBits.toNat % 2 ^ 52 ∧ e = -1074 ∨
        x.toBits.toNat / 2 ^ 52 % 2 ^ 11 ≠ 0 ∧ x.toBits.toNat / 2 ^ 52 % 2 ^ 11 ≠ 2047 ∧
          m = 2 ^ 52 + x.toBits.toNat % 2 ^ 52 ∧
          e = (x.toBits.toNat / 2 ^ 52 % 2 ^ 11 : Nat) - 1075) := by
  change UnpackedFloat.unpack .binary64 x.toBits.toBitVec = _ at h
  rw [unpack_eq] at h
  simp only [UInt64.toNat_toBitVec] at h
  by_cases htop : x.toBits.toNat / 2 ^ 52 % 2 ^ 11 = 2047
  · rw [if_pos htop] at h
    split at h <;> cases h
  rw [if_neg htop] at h
  by_cases hzero : x.toBits.toNat / 2 ^ 52 % 2 ^ 11 = 0
  · rw [if_pos hzero] at h
    split at h
    · cases h
    · injection h with hs hm he
      exact ⟨hs, .inl ⟨hzero, hm.symm, he.symm⟩⟩
  · rw [if_neg hzero] at h
    injection h with hs hm he
    exact ⟨hs, .inr ⟨hzero, htop, hm.symm, he.symm⟩⟩

theorem bits_of_zero (h : x.toModel.unpack = .zero s) : x.toBits.toNat % 2 ^ 63 = 0 := by
  change UnpackedFloat.unpack .binary64 x.toBits.toBitVec = _ at h
  rw [unpack_eq] at h
  simp only [UInt64.toNat_toBitVec] at h
  split at h
  · split at h <;> cases h
  · split at h
    · split at h
      · omega
      · cases h
    · cases h

theorem bits_of_infinity (h : x.toModel.unpack = .infinity s) : signOf x.toBits.toNat = s := by
  change UnpackedFloat.unpack .binary64 x.toBits.toBitVec = _ at h
  rw [unpack_eq] at h
  simp only [UInt64.toNat_toBitVec] at h
  split at h
  · split at h
    · injection h
    · cases h
  · split at h
    · split at h <;> cases h
    · cases h

/-- A finite number taken out of bits is in the form that rounding gives. -/
theorem kept_of_finite (h : x.toModel.unpack = .finite s m e hm) :
    Kept s (m * 2 ^ e) (.finite s m e hm) ∧ e ≤ 971 := by
  obtain ⟨-, ⟨-, rfl, rfl⟩ | ⟨h1, h2, rfl, rfl⟩⟩ := bits_of_finite h
  · exact ⟨.finite hm (by omega) le_rfl (.inl rfl), by omega⟩
  · exact ⟨.finite hm (by omega) (by omega) (.inr (by omega)), by omega⟩

theorem ofFloat_of_finite (h : x.toModel.unpack = .finite s m e hm) :
    Binary.ofFloat x = ⟨m, e⟩ := by
  have hfield : x.toBits.toNat % 2 ^ 63 / 2 ^ 52 = x.toBits.toNat / 2 ^ 52 % 2 ^ 11 := by omega
  have hfraction : x.toBits.toNat % 2 ^ 63 % 2 ^ 52 = x.toBits.toNat % 2 ^ 52 := by omega
  simp only [Binary.ofFloat, twoTo_eq, hfield, hfraction]
  obtain ⟨-, ⟨h1, rfl, rfl⟩ | ⟨h1, -, rfl, rfl⟩⟩ := bits_of_finite h
  · rw [if_pos h1]
  · rw [if_neg h1]

theorem ofFloat_of_zero (h : x.toModel.unpack = .zero s) : Binary.ofFloat x = ⟨0, -1074⟩ := by
  simp only [Binary.ofFloat, twoTo_eq, bits_of_zero h]
  rfl

theorem isNegative_iff : isNegative x = true ↔ signOf x.toBits.toNat = .negative := by
  unfold isNegative signOf
  rw [decide_eq_true_iff, twoTo_eq]
  split
  · rename_i hlt
    exact iff_of_false (not_le.mpr hlt) nofun
  · rename_i hle
    exact iff_of_true (not_lt.mp hle) rfl

theorem isNegative_of_signOf (h : signOf x.toBits.toNat = .positive) : isNegative x = false := by
  rw [Bool.eq_false_iff, ne_eq, isNegative_iff, h]
  nofun

end

end ScoreSynth.Number
