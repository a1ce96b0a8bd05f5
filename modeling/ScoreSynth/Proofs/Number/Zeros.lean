import ScoreSynth.Scalar

/-!
# Zeros among floats

What floating-point arithmetic makes of a zero is settled by the kinds of the operands, so it is
proved by going through the kinds of a number.
-/

open Float.Model

namespace ScoreSynth.Number

theorem zero_mul_of_isFinite (spec : Format) (s : UnpackedFloat.Sign) {x : UnpackedFloat}
    (h : x.isFinite = true) : ∃ t, UnpackedFloat.mul spec (.zero s) x = .zero t := by
  cases x with
  | infinity t => cases h
  | notANumber => cases h
  | zero t => exact ⟨_, rfl⟩
  | finite t m e hm => exact ⟨_, rfl⟩

theorem zero_mul_sample {x : Float32} (h : x.isFinite = true) :
    0.0 * x = 0.0 ∨ 0.0 * x = -0.0 := by
  have h0 : (0.0 : Float32).toModel.unpack = .zero .positive := rfl
  obtain ⟨t, ht⟩ := zero_mul_of_isFinite Format.binary32 .positive (x := x.toModel.unpack) h
  have hm : 0.0 * x = .ofModel (.pack (.zero t)) := by
    show Float32.ofModel (.pack (.mul Format.binary32 (0.0 : Float32).toModel.unpack
      x.toModel.unpack)) = _
    rw [h0, ht]
  rw [hm]
  cases t with
  | positive => exact .inl (by decide)
  | negative => exact .inr (by decide)

/-! ## The larger of two numbers -/

def isBelowZero : UnpackedFloat → Bool
  | .infinity .negative => true
  | .finite .negative _ _ _ => true
  | _ => false

theorem lt_zero (x : UnpackedFloat) (s : UnpackedFloat.Sign) : x.lt (.zero s) = isBelowZero x := by
  cases x with
  | notANumber => rfl
  | zero t => cases t <;> rfl
  | infinity t => cases t <;> rfl
  | finite t m e hm => cases t <;> rfl

theorem isBelowZero_of_lt {x y : UnpackedFloat} (h : x.lt y = true) (hy : isBelowZero y = true) :
    isBelowZero x = true := by
  cases y with
  | notANumber => cases hy
  | zero t => cases hy
  | infinity t =>
    cases t with
    | positive => cases hy
    | negative =>
      cases x with
      | notANumber => cases h
      | zero s => cases h
      | infinity s => cases s <;> cases h
      | finite s m e hm => cases s <;> cases h
  | finite t m e hm =>
    cases t with
    | positive => cases hy
    | negative =>
      cases x with
      | notANumber => cases h
      | zero s => cases h
      | infinity s =>
        cases s with
        | positive => cases h
        | negative => rfl
      | finite s m' e' hm' =>
        cases s with
        | positive => cases h
        | negative => rfl

structure NonNegative (x : Float) : Prop where
  isNaN : x.isNaN = false
  not_below : isBelowZero x.toModel.unpack = false

instance (x : Float) : Decidable (NonNegative x) :=
  decidable_of_iff (x.isNaN = false ∧ isBelowZero x.toModel.unpack = false)
    ⟨fun h => ⟨h.1, h.2⟩, fun h => ⟨h.isNaN, h.not_below⟩⟩

def ZeroOrNaN (x : Float) : Prop := x.isNaN = true ∨ ∃ s, x.toModel.unpack = .zero s

theorem lt_iff {x y : Float} : x < y ↔ x.toModel.unpack.lt y.toModel.unpack = true :=
  decide_eq_true_iff

theorem nonNegative_zero : NonNegative 0.0 := ⟨by decide, by decide⟩

theorem NonNegative.larger {x : Float} (h : NonNegative x) (y : Float) :
    NonNegative (largerFloat x y) := by
  unfold largerFloat
  rw [h.isNaN, if_neg Bool.false_ne_true]
  cases hy : y.isNaN with
  | true => exact h
  | false =>
    rw [if_neg Bool.false_ne_true]
    by_cases hlt : x < y
    · rw [if_pos hlt]
      refine ⟨hy, ?_⟩
      -- all that is less than a number below zero is below zero too
      cases hb : isBelowZero y.toModel.unpack with
      | false => rfl
      | true =>
        have hx := isBelowZero_of_lt (lt_iff.mp hlt) hb
        rw [h.not_below] at hx
        cases hx
    · rw [if_neg hlt]
      exact h

theorem NonNegative.larger_zeroOrNaN {x y : Float} (h : NonNegative x) (hy : ZeroOrNaN y) :
    largerFloat x y = x := by
  unfold largerFloat
  rw [h.isNaN, if_neg Bool.false_ne_true]
  rcases hy with hy | ⟨s, hy⟩
  · rw [if_pos hy]
  · have hlt : ¬ x < y := by
      rw [lt_iff, hy, lt_zero, h.not_below]
      exact Bool.false_ne_true
    rw [if_neg hlt, ite_self]

/-- Values that count for nothing can be left out before the largest is taken. -/
theorem foldl_larger_filter {α : Type} {p : α → Bool} {f : α → Float} {l : List α}
    (h : ∀ x ∈ l, p x = false → ZeroOrNaN (f x)) {acc : Float} (hacc : NonNegative acc) :
    ((l.filter p).map f).foldl largerFloat acc = (l.map f).foldl largerFloat acc := by
  induction l generalizing acc with
  | nil => rfl
  | cons x l ih =>
    have ih := fun {acc} => @ih (fun y hy => h y (List.mem_cons_of_mem x hy)) acc
    cases hx : p x with
    | true =>
      rw [List.filter_cons_of_pos hx]
      exact ih (hacc.larger _)
    | false =>
      rw [List.filter_cons_of_neg (by simp [hx]), List.map_cons, List.foldl_cons,
        hacc.larger_zeroOrNaN (h x List.mem_cons_self hx)]
      exact ih hacc

theorem zero_div (spec : Format) (s : UnpackedFloat.Sign) (x : UnpackedFloat) :
    UnpackedFloat.div spec (.zero s) x = .notANumber ∨
      ∃ t, UnpackedFloat.div spec (.zero s) x = .zero t := by
  cases x with
  | notANumber => exact .inl rfl
  | infinity t => exact .inr ⟨_, rfl⟩
  | zero t => exact .inl rfl
  | finite t m e hm => exact .inr ⟨_, rfl⟩

theorem zeroOrNaN_div (x : Float) : ZeroOrNaN (0.0 / x) := by
  have h0 : (0.0 : Float).toModel.unpack = .zero .positive := rfl
  have hd : 0.0 / x = .ofModel (.pack (.div Format.binary64 (.zero .positive) x.toModel.unpack)) := by
    show Float.ofModel (.pack (.div Format.binary64 (0.0 : Float).toModel.unpack
      x.toModel.unpack)) = _
    rw [h0]
  rw [hd]
  rcases zero_div Format.binary64 .positive x.toModel.unpack with hz | ⟨t, hz⟩
  · rw [hz]
    exact .inl (by decide)
  · rw [hz]
    refine .inr ⟨t, ?_⟩
    cases t with
    | positive => rfl
    | negative => rfl

end ScoreSynth.Number
