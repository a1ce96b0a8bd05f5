import ScoreSynth.Proofs.Number.Nearest
import ScoreSynth.Proofs.Number.Numeral

/-!
# Spelled numbers

How a layout with a point or an exponent spells the digits of a number: a whole part without needless
zeros, a fraction and an exponent, and together they have the value of the digits. The decimal that
a spelling is read as is rounded to the number it was written for.
-/

namespace ScoreSynth.Number

/-! ## Runs of digits -/

theorem head?_decimalText {n : Nat} (hn : 0 < n) : (decimalText n).head? ≠ some '0' := by
  induction n using Nat.strong_induction_on with
  | _ n ih =>
    rcases Nat.lt_or_ge n 10 with h | h
    · unfold decimalText
      rw [Nat.toDigits_of_lt_base h]
      have hall : ∀ m < 10, 0 < m → [Nat.digitChar m].head? ≠ some '0' := by decide
      exact hall n h hn
    · have hq : 0 < n / 10 := Nat.div_pos h (by decide)
      unfold decimalText
      rw [Nat.toDigits_of_base_le (by decide) h, List.head?_append_of_ne_nil _ Nat.toDigits_ne_nil]
      exact ih (n / 10) (Nat.div_lt_self hn (by decide)) hq

theorem lt_length_decimalText (n : Nat) : n < 10 ^ (decimalText n).length :=
  (Nat.length_toDigits_le_iff (by decide) Nat.length_toDigits_pos).mp le_rfl

theorem length_decimalText_le {n k : Nat} (hk : 0 < k) (h : n < 10 ^ k) :
    (decimalText n).length ≤ k :=
  (Nat.length_toDigits_le_iff (by decide) hk).mpr h

theorem digitsValue_lt {s : List Char} (hs : ∀ c ∈ s, c.isDigit = true) :
    digitsValue s < 10 ^ s.length := by
  induction s using List.reverseRecOn with
  | nil => decide
  | append_singleton s c ih =>
    have hc : digitValue c ≤ 9 := by
      have := hs c (by simp)
      rw [Char.isDigit, Bool.and_eq_true, decide_eq_true_eq, decide_eq_true_eq] at this
      have h9 : c.toNat ≤ '9'.toNat := this.2
      have h0 : '0'.toNat = 48 := rfl
      have h9' : '9'.toNat = 57 := rfl
      unfold digitValue
      omega
    have ih := ih fun c hc => hs c (List.mem_append_left _ hc)
    have hone : digitsValue [c] = digitValue c := by simp [digitsValue]
    rw [digitsValue_append, hone, List.length_append, List.length_singleton, pow_one, pow_succ]
    omega

namespace Binary

theorem head?_stripZeros {s : List Char} (hs : s.head? ≠ some '0') (hne : s ≠ []) :
    (stripZeros s).head? = s.head? := by
  obtain ⟨m, hm⟩ := stripZeros_append s
  have hn : stripZeros s ≠ [] := by
    intro h
    rw [h, List.nil_append] at hm
    cases m with
    | zero => exact hne hm
    | succ m => exact hs (by rw [hm]; rfl)
  conv_rhs => rw [hm, List.head?_append_of_ne_nil _ hn]

end Binary

/-! ## Digits of a shortest decimal -/

namespace Digits

structure Normal (d : Digits) : Prop where
  ne_nil : d.digits ≠ []
  isDigit : ∀ c ∈ d.digits, c.isDigit = true
  head : d.digits.head? ≠ some '0' ∨ d = ⟨['0'], 1⟩

theorem normal_zero : Normal ⟨['0'], 1⟩ :=
  ⟨List.cons_ne_nil _ _, List.forall_mem_singleton.mpr rfl, .inr rfl⟩

theorem normal_ofDecimal {n : Nat} (hn : 0 < n) (k : Int) : (Binary.ofDecimal n k).Normal where
  ne_nil := Binary.digits_ofDecimal_ne_nil hn.ne' k
  isDigit _ hc := Binary.isDigit_of_mem_ofDecimal hc
  head := .inl <| by
    have hs := Binary.head?_stripZeros (head?_decimalText hn) (decimalText_ne_nil n)
    exact hs ▸ head?_decimalText hn

theorem normal_shortest (w : Width) (tieUp : Bool) (x : Binary) : (x.shortest w tieUp).Normal := by
  unfold Binary.shortest
  simp only
  cases hf : (List.range 20).findSome? fun (n : Nat) =>
      (Binary.onGrid w tieUp x (x.decimalPoint - n - 1)).map
        fun d => Binary.ofDecimal d (x.decimalPoint - n - 1) with
  | none => exact normal_zero
  | some digits =>
    obtain ⟨n, -, hg⟩ := List.exists_of_findSome?_eq_some hf
    obtain ⟨d, hd, rfl⟩ := Option.map_eq_some_iff.mp hg
    exact normal_ofDecimal (Nat.pos_of_ne_zero (Binary.onGrid_eq_some hd).1) _

end Digits

/-! ## Layouts -/

inductive Exponent : List Char → Int → Prop
  | none : Exponent [] 0
  | unsigned (n : Nat) : Exponent ('e' :: decimalText n) n
  | plus (n : Nat) : Exponent ('e' :: '+' :: decimalText n) n
  | minus (n : Nat) : Exponent ('e' :: '-' :: decimalText n) (-n)

/-- The parts of a spelled number, with no needless zero in front. -/
structure Spelled (whole fraction exponent : List Char) (n : Int) : Prop where
  ne_nil : whole ≠ []
  whole_digits : ∀ c ∈ whole, c.isDigit = true
  head : whole.head? ≠ some '0' ∨ whole = ['0']
  fraction_digits : ∀ c ∈ fraction, c.isDigit = true
  exponent : Exponent exponent n

def spelledValue (whole fraction : List Char) (n : Int) : ℚ :=
  (digitsValue whole + digitsValue fraction / 10 ^ fraction.length) * 10 ^ n

theorem spelled_decimalText (n : Nat) : Spelled (decimalText n) [] [] 0 where
  ne_nil := decimalText_ne_nil n
  whole_digits _ hc := isDigit_of_mem_decimalText hc
  head := by
    rcases Nat.eq_zero_or_pos n with rfl | hn
    · exact .inr rfl
    · exact .inl (head?_decimalText hn)
  fraction_digits := nofun
  exponent := .none

namespace Layout

section
variable {d : Digits}

theorem writePositional_pointed (hd : d.digits ≠ []) : writePositional ".0" d =
    numeral d.whole (if d.fraction = [] then ['0'] else d.fraction) := by
  rw [writePositional_parts ".0" hd, numeral_eq]
  by_cases hf : d.fraction = [] <;> simp [hf]

theorem spelled_whole (hd : d.Normal) {f : List Char} (hf : ∀ c ∈ f, c.isDigit = true) :
    Spelled d.whole f [] 0 where
  ne_nil := d.whole_ne_nil hd.ne_nil
  whole_digits _ hc := d.isDigit_of_mem_whole hd.isDigit hc
  head := by
    rcases hd.head with h | rfl
    · unfold Digits.whole
      split
      · exact .inr rfl
      · rename_i hp
        have hne : d.digits.take d.point.toNat ≠ [] := by
          rw [ne_eq, List.take_eq_nil_iff, not_or]
          exact ⟨by omega, hd.ne_nil⟩
        rw [List.head?_append_of_ne_nil _ hne, List.head?_take, if_neg (by omega)]
        exact .inl h
    · exact .inr rfl
  fraction_digits := hf
  exponent := .none

theorem exponent_writeInt (plus : List Char) (hp : plus = [] ∨ plus = ['+']) (n : Int) :
    Exponent ('e' :: ((if n < 0 then [] else plus) ++ writeInt n)) n := by
  unfold writeInt
  split
  · rename_i h
    have hn : n = -(n.natAbs : Int) := by omega
    conv => arg 2; rw [hn]
    exact .minus _
  · rename_i h
    have hn : n = (n.natAbs : Int) := by omega
    conv => arg 2; rw [hn]
    rcases hp with rfl | rfl
    · exact .unsigned _
    · exact .plus _

/-- What a layout with an ending for whole numbers writes for digits spells their value. -/
theorem spelled_writeDigits {l : Layout} (hl : l.wholeEnding = ".0") (hd : d.Normal) :
    ∃ whole fraction exponent n, Spelled whole fraction exponent n ∧
      l.writeDigits d = numeral whole fraction ++ exponent ∧
      spelledValue whole fraction n = d.value ∧
      whole.length + fraction.length ≤ d.digits.length + d.point.natAbs + 1 ∧
      n.natAbs ≤ d.point.natAbs + 1 := by
  have hlen := List.length_pos_iff.mpr hd.ne_nil
  unfold writeDigits
  split
  · -- the fraction of a whole number is one zero
    have hwhole : d.whole.length ≤ max 1 d.point.toNat := by
      unfold Digits.whole
      split
      · exact Nat.le_max_left _ _
      · rw [List.length_append, List.length_take, length_zeros]
        omega
    rw [hl, writePositional_pointed hd.ne_nil]
    by_cases hf : d.fraction = []
    · rw [if_pos hf]
      have hzero := spelled_whole hd (f := ['0']) (List.forall_mem_singleton.mpr rfl)
      refine ⟨_, _, [], 0, hzero, (List.append_nil _).symm, ?_, ?_, ?_⟩
      · rw [d.value_eq, hf]
        simp [spelledValue, digitsValue, digitValue]
      · rw [List.length_singleton]
        omega
      · exact Nat.zero_le _
    · rw [if_neg hf]
      refine ⟨_, _, [], 0, spelled_whole hd fun _ hc => d.isDigit_of_mem_fraction hd.isDigit hc,
        (List.append_nil _).symm, ?_, ?_, ?_⟩
      · rw [d.value_eq, spelledValue, zpow_zero, mul_one]
      · rw [Digits.length_fraction]
        omega
      · exact Nat.zero_le _
  · obtain ⟨digits, point⟩ := d
    obtain ⟨hne, hdigit, hhead⟩ := hd
    cases digits with
    | nil => exact absurd rfl hne
    | cons c rest =>
      refine ⟨[c], rest, _, point - 1, ⟨List.cons_ne_nil _ _, ?_, ?_, ?_, exponent_writeInt
        (if l.plusExponent then ['+'] else []) ?_ _⟩, ?_, ?_, ?_, ?_⟩
      · exact fun x hx => hdigit x (List.mem_singleton.mp hx ▸ List.mem_cons_self)
      · rcases hhead with h | h
        · exact .inl h
        · obtain ⟨rfl, -⟩ := List.cons.inj (Digits.mk.inj h).1
          exact .inr rfl
      · exact fun x hx => hdigit x (List.mem_cons_of_mem _ hx)
      · split
        · exact .inr rfl
        · exact .inl rfl
      · have hsign : (point < 1) = (point - 1 < 0) := by rw [eq_iff_iff]; omega
        unfold writeExponent numeral
        simp only [hsign]
        cases rest <;> simp
      · have h10 : (10 : ℚ) ≠ 0 := by norm_num
        have hsplit : digitsValue (c :: rest) = digitsValue [c] * 10 ^ rest.length +
            digitsValue rest := digitsValue_append [c] rest
        have hexp : point - ((c :: rest).length : Nat) = (point - 1) - (rest.length : Nat) := by
          rw [List.length_cons]
          push_cast
          ring
        unfold spelledValue Digits.value
        simp only
        rw [hsplit, hexp, zpow_sub₀ h10 (point - 1), zpow_natCast]
        push_cast
        field_simp
      · simp only [List.length_cons, List.length_nil]
        omega
      · simp only
        omega

end

end Layout

/-! ## Reading a spelled number -/

namespace Binary

section
variable {w : Width} {x : Binary}

theorem pow_length_decimalText_le {d : Nat} (hd : 0 < d) :
    10 ^ ((decimalText d).length - 1) ≤ d := by
  rcases Nat.eq_zero_or_pos ((decimalText d).length - 1) with h | h
  · rw [h]
    exact hd
  · by_contra hlt
    have := length_decimalText_le h (not_le.mp hlt)
    omega

theorem ten_zpow_point {d : Nat} (hd : 0 < d) (k : Int) :
    (10 : ℚ) ^ ((ofDecimal d k).point - 1) ≤ d * 10 ^ k ∧
      (d : ℚ) * 10 ^ k < 10 ^ (ofDecimal d k).point := by
  have h10 : (10 : ℚ) ≠ 0 := by norm_num
  have hk := ten_zpow_pos k
  have hlen : 0 < (decimalText d).length := Nat.length_toDigits_pos
  have hpoint : (ofDecimal d k).point = k + (decimalText d).length := rfl
  have hcast : ((decimalText d).length : Int) - 1 = ((decimalText d).length - 1 : Nat) := by omega
  constructor
  · rw [hpoint, add_sub_assoc, hcast, zpow_add₀ h10, zpow_natCast, mul_comm]
    exact mul_le_mul_of_nonneg_right (by exact_mod_cast pow_length_decimalText_le hd) hk.le
  · rw [hpoint, zpow_add₀ h10, zpow_natCast, mul_comm (10 ^ k)]
    exact mul_lt_mul_of_pos_right (by exact_mod_cast lt_length_decimalText d) hk

theorem length_digits_ofDecimal_le (d : Nat) (k : Int) :
    (ofDecimal d k).digits.length ≤ (decimalText d).length := by
  obtain ⟨m, hm⟩ := stripZeros_append (decimalText d)
  conv_rhs => rw [hm, List.length_append]
  exact Nat.le_add_right _ _

/-- The shortest decimal of a number of moderate size has a moderate number of digits. -/
theorem shortest_bounds (w : Width) (tieUp : Bool) (hx : x.Ordinary)
    (hlow : (10 : ℚ) ^ (-50 : Int) ≤ x.value) (hhigh : x.value ≤ 10 ^ (50 : Int)) :
    ∃ d k, x.shortest w tieUp = ofDecimal d k ∧ readsBack w x d k = true ∧
      (ofDecimal d k).digits.length ≤ 21 ∧ (ofDecimal d k).point.natAbs ≤ 51 := by
  obtain ⟨d, k, hs, hd, hback, hk, -⟩ := shortest_spec w tieUp hx
  refine ⟨d, k, hs, hback, ?_⟩
  have h10 : (10 : ℚ) ≠ 0 := by norm_num
  have hunit : (2 : ℚ) ^ x.exponent ≤ x.value :=
    le_mul_of_one_le_left (two_zpow_pos _).le (by exact_mod_cast hx.pos)
  obtain ⟨hel, heu⟩ := abs_le.mp (readsBack_error hx.pos hback)
  obtain ⟨hpl, hpu⟩ := ten_zpow_point (Nat.pos_of_ne_zero hd) k
  constructor
  · -- twenty places below the leading digit, and one more for the rounding
    have hp := (decimalPoint_spec hx).2
    have hstep : (10 : ℚ) ^ x.decimalPoint ≤ 10 ^ 20 * 10 ^ k := by
      rw [← zpow_natCast, ← zpow_add₀ h10]
      exact zpow_le_zpow_right₀ (by norm_num) (by push_cast; omega)
    have hlt : (d : ℚ) < 10 ^ 21 := by
      have hk := ten_zpow_pos k
      refine lt_of_mul_lt_mul_right (a := (10 : ℚ) ^ k) ?_ hk.le
      calc (d : ℚ) * 10 ^ k ≤ 2 * x.value := by linarith
        _ < 2 * (10 ^ 20 * 10 ^ k) := by linarith
        _ ≤ 10 ^ 21 * 10 ^ k := by linarith
    exact (length_digits_ofDecimal_le d k).trans
      (length_decimalText_le (by decide) (by exact_mod_cast hlt))
  · have hup : (10 : ℚ) ^ ((ofDecimal d k).point - 1) < 10 ^ (51 : Int) := by
      norm_num at hhigh ⊢
      linarith
    have hdown : (10 : ℚ) ^ (-51 : Int) < 10 ^ (ofDecimal d k).point := by
      norm_num at hlow ⊢
      linarith
    have h1 := (zpow_lt_zpow_iff_right₀ (by norm_num)).mp hup
    have h2 := (zpow_lt_zpow_iff_right₀ (by norm_num)).mp hdown
    omega

theorem OfWidth.ordinary (hx : x.OfWidth .double) (hpos : 0 < x.significand)
    (hhigh : x.value ≤ 10 ^ (50 : Int)) : x.Ordinary where
  pos := hpos
  le := hx.le
  low := by
    have := hx.least_le
    have : Width.double.least = -1074 := rfl
    omega
  high := by
    have hunit : (2 : ℚ) ^ x.exponent ≤ x.value :=
      le_mul_of_one_le_left (two_zpow_pos _).le (by exact_mod_cast hpos)
    have hlt : (2 : ℚ) ^ x.exponent < 2 ^ (200 : Int) := by
      norm_num at hhigh ⊢
      linarith
    have := (zpow_lt_zpow_iff_right₀ (one_lt_two : (1 : ℚ) < 2)).mp hlt
    omega

theorem passesDouble_of_le (h : x.value ≤ 2 ^ (700 : Int)) : x.passesDouble = false := by
  rcases Nat.eq_zero_or_pos x.significand with h0 | hpos
  · simp [passesDouble, h0]
  have hlog : (2 : ℚ) ^ ((x.significand.log2 : Int) + x.exponent) ≤ x.value := by
    rw [zpow_add₀ two_ne_zero, zpow_natCast]
    refine mul_le_mul_of_nonneg_right ?_ (two_zpow_pos _).le
    exact_mod_cast Nat.log2_self_le hpos.ne'
  have := (zpow_le_zpow_iff_right₀ (one_lt_two : (1 : ℚ) < 2)).mp (hlog.trans h)
  rw [passesDouble, Bool.and_eq_false_iff]
  exact .inr (decide_eq_false (by omega))

end

end Binary

namespace Decimal

/-- A decimal of moderate size is rounded from its exact value. -/
theorem magnitude_eq (w : Width) {d : Decimal} (hs : d.significand < 10 ^ 75)
    (he : d.exponent.natAbs ≤ 200) : ∃ num den : Nat, 0 < den ∧
      (num : ℚ) / den = d.significand * 10 ^ d.exponent ∧ d.magnitude w = .nearest w num den := by
  refine ⟨_, _, Binary.decimalRatio_pos d.significand d.exponent,
    Binary.decimalRatio_value d.significand d.exponent, ?_⟩
  rcases Nat.eq_zero_or_pos d.significand with h0 | hpos
  · unfold magnitude Binary.decimalRatio
    rw [h0]
    split <;> simp [Binary.nearest]
  · have hlog : d.significand.log2 < 250 :=
      (Nat.log2_lt hpos.ne').mpr (hs.trans (by decide))
    have h1 : ¬((d.significand.log2 : Int) * 30103 / 100000 + d.exponent < -400) := by omega
    have h2 : ¬(400 < (d.significand.log2 : Int) * 30103 / 100000 + d.exponent) := by omega
    unfold magnitude Binary.decimalRatio
    simp only [hpos.ne', h1, h2, decide_false, Bool.or_false, Bool.false_eq_true, if_false]
    split <;> rfl

section
variable {whole fraction exponent : List Char} {n : Int}

theorem ofParts_value (negative plain : Bool) :
    ((ofParts negative whole fraction n plain).significand : ℚ) *
        10 ^ (ofParts negative whole fraction n plain).exponent =
      spelledValue whole fraction n := by
  unfold ofParts spelledValue
  simp only
  rw [digitsValue_append, zpow_sub₀ (by norm_num), zpow_natCast]
  push_cast
  field_simp

/-- What is spelled with a moderate number of digits is rounded from its exact value. -/
theorem magnitude_ofParts (w : Width) (negative plain : Bool)
    (hs : Spelled whole fraction exponent n) (hsize : whole.length + fraction.length ≤ 75)
    (hn : n.natAbs ≤ 100) : ∃ num den : Nat, 0 < den ∧
      (num : ℚ) / den = spelledValue whole fraction n ∧ (num : ℚ) / den ≤ 10 ^ 175 ∧
      (ofParts negative whole fraction n plain).magnitude w = .nearest w num den := by
  have hdigits : ∀ c ∈ whole ++ fraction, c.isDigit = true := fun c hc =>
    (List.mem_append.mp hc).elim (hs.whole_digits c) (hs.fraction_digits c)
  have hlt : digitsValue (whole ++ fraction) < 10 ^ 75 :=
    (digitsValue_lt hdigits).trans_le (Nat.pow_le_pow_right (by decide) (by simpa using hsize))
  obtain ⟨num, den, hd, hv, hm⟩ := magnitude_eq w
    (d := ofParts negative whole fraction n plain) hlt (by simp only [ofParts]; omega)
  refine ⟨num, den, hd, hv.trans (ofParts_value negative plain), ?_, hm⟩
  have hexp : (10 : ℚ) ^ (n - fraction.length) ≤ 10 ^ 100 := by
    rw [← zpow_natCast]
    exact zpow_le_zpow_right₀ (by norm_num) (by push_cast; omega)
  rw [hv]
  calc (digitsValue (whole ++ fraction) : ℚ) * 10 ^ (n - fraction.length)
      ≤ 10 ^ 75 * 10 ^ 100 :=
        mul_le_mul (by exact_mod_cast hlt.le) hexp (ten_zpow_pos _).le (by positivity)
    _ = 10 ^ 175 := by norm_num

theorem passesDouble_ofParts (negative plain : Bool) (hs : Spelled whole fraction exponent n)
    (hsize : whole.length + fraction.length ≤ 75) (hn : n.natAbs ≤ 100) :
    ((ofParts negative whole fraction n plain).magnitude .double).passesDouble = false := by
  obtain ⟨num, den, hd, -, hle, hm⟩ := magnitude_ofParts .double negative plain hs hsize hn
  have hbound : (num : ℚ) / den ≤ 2 ^ (700 : Int) := by
    calc (num : ℚ) / den ≤ 10 ^ 175 := hle
      _ ≤ (2 ^ 4) ^ 175 := pow_le_pow_left₀ (by norm_num) (by norm_num) _
      _ = 2 ^ (700 : Int) := by rw [← pow_mul, ← zpow_natCast]; rfl
  rw [hm]
  exact Binary.passesDouble_of_le (Binary.nearest_le_zpow (by decide) (by decide) hd hbound)

end

end Decimal

namespace Layout

/-- The spelling of a double of moderate size is read as that double. -/
theorem spelled_writeBinary {l : Layout} (hl : l.wholeEnding = ".0") {x : Binary}
    (hx : x.OfWidth .double) (hlow : x.significand = 0 ∨ (10 : ℚ) ^ (-50 : Int) ≤ x.value)
    (hhigh : x.value ≤ 10 ^ (50 : Int)) : ∃ whole fraction exponent n,
      Spelled whole fraction exponent n ∧
        l.writeBinary .double x = numeral whole fraction ++ exponent ∧
        whole.length + fraction.length ≤ 75 ∧ n.natAbs ≤ 100 ∧ ∀ negative plain,
          ((Decimal.ofParts negative whole fraction n plain).magnitude .double).value = x.value := by
  unfold writeBinary
  split
  · rename_i h0
    obtain ⟨whole, fraction, exponent, n, hs, ht, hv, hsize, hn⟩ :=
      spelled_writeDigits hl Digits.normal_zero
    simp only [List.length_singleton, Int.natAbs_one] at hsize hn
    refine ⟨whole, fraction, exponent, n, hs, ht, by omega, by omega, fun negative plain => ?_⟩
    obtain ⟨num, den, hd, hq, -, hm⟩ :=
      Decimal.magnitude_ofParts .double negative plain hs (by omega) (by omega)
    have hz : x.value = 0 := by rw [Binary.value, h0, Nat.cast_zero, zero_mul]
    rw [hm]
    refine Binary.nearest_of_ofWidth hx (by decide) hd ?_
    rw [hq, hv, hz]
    simp [Digits.value, digitsValue, digitValue]
  · rename_i h0
    have hpos := Nat.pos_of_ne_zero h0
    obtain ⟨d, k, hshort, hback, hlen, hpoint⟩ := Binary.shortest_bounds .double l.tieUp
      (hx.ordinary hpos hhigh) (hlow.resolve_left h0) hhigh
    have hnormal := Digits.normal_shortest .double l.tieUp x
    rw [hshort] at hnormal
    obtain ⟨whole, fraction, exponent, n, hs, ht, hv, hsize, hn⟩ :=
      spelled_writeDigits hl hnormal
    refine ⟨whole, fraction, exponent, n, hs, by rw [hshort, ht], by omega, by omega,
      fun negative plain => ?_⟩
    obtain ⟨num, den, hd, hq, -, hm⟩ :=
      Decimal.magnitude_ofParts .double negative plain hs (by omega) (by omega)
    rw [hm]
    refine Binary.nearest_of_readsBack hpos hback hx (by decide) hd ?_
    rw [hq, hv, Binary.value_ofDecimal]

end Layout

end ScoreSynth.Number
