import ScoreSynth.Proofs.Number.Operations

/-!
# Signs of doubles

Products and quotients of doubles without a minus sign have none, not even where they are zero. To
such a double, a sum adds the same from either zero.
-/

open Float.Model
open Float.Model.UnpackedFloat

namespace ScoreSynth.Number

def isMinus : UnpackedFloat → Bool
  | .zero .negative | .infinity .negative | .finite .negative _ _ _ => true
  | _ => false

/-! ## Unpacked numbers -/

section
variable {a b : UnpackedFloat}

theorem isMinus_unpack_packComponents (e : BitVec 11) (m : BitVec 52) :
    isMinus (UnpackedFloat.unpack .binary64 (packComponents .binary64 .positive e m)) = false := by
  rw [unpack_eq, signOf_packComponents]
  split_ifs <;> rfl

theorem isMinus_unpack_pack (h : isMinus a = false) :
    isMinus (Float.Model.pack a).unpack = false := by
  cases a with
  | notANumber => rfl
  | zero s =>
    rw [unpack_pack_zero]
    exact h
  | infinity s =>
    rw [unpack_pack_infinity]
    exact h
  | finite s m e hm =>
    cases s with
    | negative => cases h
    | positive =>
      show isMinus (UnpackedFloat.unpack .binary64 (UnpackedFloat.pack .binary64 _)) = false
      unfold UnpackedFloat.pack
      simp only
      split_ifs <;> exact isMinus_unpack_packComponents _ _

theorem isMinus_roundWithAccuracy (m : Nat) (e : Int) (acc : Accuracy) :
    isMinus (roundWithAccuracy .binary64 .positive m e acc) = false := by
  unfold roundWithAccuracy
  simp only
  split <;> rfl

theorem kinds_of_not_minus (h : isMinus a = false) :
    a = .notANumber ∨ a = .zero .positive ∨ a = .infinity .positive ∨
      ∃ m e hm, a = .finite .positive m e hm := by
  cases a with
  | notANumber => exact .inl rfl
  | zero s =>
    cases s with
    | positive => exact .inr (.inl rfl)
    | negative => cases h
  | infinity s =>
    cases s with
    | positive => exact .inr (.inr (.inl rfl))
    | negative => cases h
  | finite s m e hm =>
    cases s with
    | positive => exact .inr (.inr (.inr ⟨m, e, hm, rfl⟩))
    | negative => cases h

theorem isMinus_mul (ha : isMinus a = false) (hb : isMinus b = false) :
    isMinus (.mul .binary64 a b) = false := by
  rcases kinds_of_not_minus ha with rfl | rfl | rfl | ⟨m, e, hm, rfl⟩
  · rfl
  · rcases kinds_of_not_minus hb with rfl | rfl | rfl | ⟨n, f, hn, rfl⟩ <;> rfl
  · rcases kinds_of_not_minus hb with rfl | rfl | rfl | ⟨n, f, hn, rfl⟩ <;> rfl
  · rcases kinds_of_not_minus hb with rfl | rfl | rfl | ⟨n, f, hn, rfl⟩
    · rfl
    · rfl
    · rfl
    · exact isMinus_roundWithAccuracy _ _ _

theorem isMinus_div (ha : isMinus a = false) (hb : isMinus b = false) :
    isMinus (.div .binary64 a b) = false := by
  rcases kinds_of_not_minus ha with rfl | rfl | rfl | ⟨m, e, hm, rfl⟩
  · rfl
  · rcases kinds_of_not_minus hb with rfl | rfl | rfl | ⟨n, f, hn, rfl⟩ <;> rfl
  · rcases kinds_of_not_minus hb with rfl | rfl | rfl | ⟨n, f, hn, rfl⟩ <;> rfl
  · rcases kinds_of_not_minus hb with rfl | rfl | rfl | ⟨n, f, hn, rfl⟩
    · rfl
    · rfl
    · rfl
    · exact isMinus_roundWithAccuracy _ _ _

end

/-! ## Doubles -/

def Unsigned (x : Float) : Prop := isMinus x.toModel.unpack = false

section
variable {x y : Float}

theorem Unsigned.mul (hx : Unsigned x) (hy : Unsigned y) : Unsigned (x * y) :=
  isMinus_unpack_pack (isMinus_mul hx hy)

theorem Unsigned.div (hx : Unsigned x) (hy : Unsigned y) : Unsigned (x / y) :=
  isMinus_unpack_pack (isMinus_div hx hy)

theorem unsigned_ofNat (n : Nat) : Unsigned (Float.ofNat n) := by
  rcases Nat.eq_zero_or_pos n with rfl | hn
  · rfl
  · rcases (ofNat_spec n).1.kinds with ⟨s, h⟩ | h | ⟨m, e, hm, h⟩
    · exact absurd (magnitude_of_zero h) (magnitude_ofNat_ne_zero hn)
    · show isMinus _ = false
      rw [h]
      rfl
    · show isMinus _ = false
      rw [h]
      rfl

/-- The two zeros differ in nothing that is added to them without a minus sign. -/
theorem zero_add_add (hx : Unsigned x) : 0.0 + y + x = y + x := by
  have h0 : (0.0 : Float).toModel.unpack = .zero .positive := rfl
  by_cases hy : ∃ s, y.toModel.unpack = .zero s
  · obtain ⟨s, hy⟩ := hy
    have hz : 0.0 + y = 0.0 := by
      rw [add_eq, h0, hy]
      cases s <;> rfl
    rw [hz, add_eq, add_eq, h0, hy]
    rcases kinds_of_not_minus hx with h | h | h | ⟨m, e, hm, h⟩
    · rw [h]
      rfl
    · rw [h]
      cases s <;> rfl
    · rw [h]
      rfl
    · rw [h]
      rfl
  · rw [zero_add_eq h0 (not_exists.mp hy)]

end

end ScoreSynth.Number
