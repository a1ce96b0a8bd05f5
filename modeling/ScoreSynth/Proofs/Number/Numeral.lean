import Mathlib.Data.List.TakeWhile
import ScoreSynth.Number.Decimal
import ScoreSynth.Number.Layout
import ScoreSynth.Proofs.Number.Shortest

/-!
# Values of written digits

The value of a run of digits, and of the digits of a decimal once their point is placed. A
positional layout writes such digits as a whole part and a fraction that have the same value.
-/

namespace ScoreSynth.Number

/-! ## Runs of digits -/

theorem digitsValue_eq (s : List Char) : digitsValue s = Nat.ofDigitChars 10 s 0 := rfl

theorem digitsValue_append (a b : List Char) :
    digitsValue (a ++ b) = digitsValue a * 10 ^ b.length + digitsValue b := by
  rw [digitsValue_eq, Nat.ofDigitChars_append, Nat.ofDigitChars_eq_ofDigitChars_zero, mul_comm]
  rfl

theorem digitsValue_replicate (n : Nat) : digitsValue (List.replicate n '0') = 0 := by
  rw [digitsValue_eq, Nat.ofDigitChars_replicate_zero, mul_zero]

theorem digitsValue_decimalText (n : Nat) : digitsValue (decimalText n) = n :=
  Nat.ofDigitChars_ten_toDigits

theorem isDigit_of_mem_decimalText {n : Nat} {c : Char} (hc : c ∈ decimalText n) :
    c.isDigit = true :=
  Nat.isDigit_of_mem_toDigits (by decide) (by decide) hc

theorem decimalText_ne_nil (n : Nat) : decimalText n ≠ [] := Nat.toDigits_ne_nil

theorem natural?_decimalText (n : Nat) : natural? (decimalText n) = some n := by
  unfold natural?
  have hall : (decimalText n).all Char.isDigit = true :=
    List.all_eq_true.mpr fun _ hc => isDigit_of_mem_decimalText hc
  simp [hall, decimalText_ne_nil, digitsValue_decimalText]

theorem unsigned?_decimalText {limit n : Nat} (h : n ≤ limit) :
    unsigned? limit (decimalText n) = some n := by
  have hn : (natural? (decimalText n)).filter (· ≤ limit) = some n := by
    rw [natural?_decimalText]
    simp [h]
  unfold unsigned?
  simp only
  split
  · rename_i r hr
    have := isDigit_of_mem_decimalText (hr ▸ List.mem_cons_self : '+' ∈ decimalText n)
    exact absurd this (by decide)
  · exact hn

section
variable {d r : List Char}

theorem takeWhile_digits_append (hd : ∀ c ∈ d, c.isDigit = true)
    (hr : ∀ c ∈ r.head?, c.isDigit = false) : (d ++ r).takeWhile Char.isDigit = d := by
  rw [List.takeWhile_append_of_pos hd]
  cases r with
  | nil => exact List.append_nil d
  | cons c r => rw [List.takeWhile_cons_of_neg (by simp [hr c rfl]), List.append_nil]

theorem dropWhile_digits_append (hd : ∀ c ∈ d, c.isDigit = true)
    (hr : ∀ c ∈ r.head?, c.isDigit = false) : (d ++ r).dropWhile Char.isDigit = r := by
  rw [List.dropWhile_append_of_pos hd]
  cases r with
  | nil => rfl
  | cons c r => rw [List.dropWhile_cons_of_neg (by simp [hr c rfl])]

end

/-! ## Trailing zeros -/

theorem Binary.stripZeros_append (s : List Char) :
    ∃ m, s = stripZeros s ++ List.replicate m '0' := by
  have h := List.takeWhile_append_dropWhile (p := fun c => decide (c = '0')) (l := s.reverse)
  refine ⟨(s.reverse.takeWhile fun c => decide (c = '0')).length, ?_⟩
  have hz : s.reverse.takeWhile (fun c => decide (c = '0')) =
      List.replicate (s.reverse.takeWhile fun c => decide (c = '0')).length '0' :=
    List.eq_replicate_of_mem fun c hc => by simpa using List.mem_takeWhile_imp hc
  unfold stripZeros
  rw [← List.reverse_replicate, ← hz, ← List.reverse_append, h, List.reverse_reverse]

theorem Binary.mem_stripZeros {s : List Char} {c : Char} (hc : c ∈ stripZeros s) : c ∈ s := by
  obtain ⟨m, hm⟩ := stripZeros_append s
  rw [hm]
  exact List.mem_append_left _ hc

namespace Digits

def value (d : Digits) : ℚ := digitsValue d.digits * 10 ^ (d.point - d.digits.length)

def whole (d : Digits) : List Char :=
  if d.point ≤ 0 then ['0']
  else d.digits.take d.point.toNat ++ Layout.zeros (d.point - d.digits.length)

def fraction (d : Digits) : List Char :=
  Layout.zeros (-d.point) ++ d.digits.drop d.point.toNat

end Digits

theorem Binary.value_ofDecimal (d : Nat) (k : Int) :
    (ofDecimal d k).value = d * 10 ^ k := by
  obtain ⟨m, hm⟩ := stripZeros_append (decimalText d)
  have hl : ((decimalText d).length : Int) = (stripZeros (decimalText d)).length + m := by
    conv_lhs => rw [hm]
    simp
  have hv : d = digitsValue (stripZeros (decimalText d)) * 10 ^ m := by
    conv_lhs => rw [← digitsValue_decimalText d, hm]
    rw [digitsValue_append, digitsValue_replicate, List.length_replicate, add_zero]
  have hk : k + ((decimalText d).length : Int) - (stripZeros (decimalText d)).length = m + k := by
    omega
  unfold Digits.value ofDecimal
  simp only
  conv_rhs => rw [hv]
  rw [hk, zpow_add₀ (by norm_num), zpow_natCast]
  push_cast
  ring

theorem Binary.digits_ofDecimal_ne_nil {d : Nat} (hd : d ≠ 0) (k : Int) :
    (ofDecimal d k).digits ≠ [] := by
  intro h
  have hv := value_ofDecimal d k
  unfold Digits.value at hv
  rw [h] at hv
  have : (d : ℚ) * 10 ^ k ≠ 0 := mul_ne_zero (by exact_mod_cast hd) (zpow_ne_zero _ (by norm_num))
  exact this (by rw [← hv]; simp [digitsValue])

theorem Binary.isDigit_of_mem_ofDecimal {d : Nat} {k : Int} {c : Char}
    (hc : c ∈ (ofDecimal d k).digits) : c.isDigit = true :=
  isDigit_of_mem_decimalText (mem_stripZeros hc)

theorem Binary.length_ofDecimal_le (d : Nat) (k : Int) :
    ((ofDecimal d k).digits.length : Int) - (ofDecimal d k).point ≤ -k := by
  obtain ⟨m, hm⟩ := stripZeros_append (decimalText d)
  have hl : (decimalText d).length = (stripZeros (decimalText d)).length + m := by
    conv_lhs => rw [hm]
    simp
  unfold ofDecimal
  simp only
  omega

theorem Binary.shortest_digits (w : Width) (tieUp : Bool) (x : Binary) :
    (x.shortest w tieUp).digits ≠ [] ∧ ∀ c ∈ (x.shortest w tieUp).digits, c.isDigit = true := by
  unfold shortest
  simp only
  cases hf : (List.range 20).findSome? fun (n : Nat) =>
      (onGrid w tieUp x (x.decimalPoint - n - 1)).map
        fun d => ofDecimal d (x.decimalPoint - n - 1) with
  | none => exact ⟨List.cons_ne_nil _ _, by simp⟩
  | some digits =>
    obtain ⟨n, -, hg⟩ := List.exists_of_findSome?_eq_some hf
    obtain ⟨d, hd, rfl⟩ := Option.map_eq_some_iff.mp hg
    exact ⟨digits_ofDecimal_ne_nil (onGrid_eq_some hd).1 _, fun c hc => isDigit_of_mem_ofDecimal hc⟩

/-! ## Positional layout -/

def numeral (whole fraction : List Char) : List Char :=
  if fraction.isEmpty then whole else whole ++ '.' :: fraction

theorem numeral_eq (whole fraction : List Char) :
    numeral whole fraction = whole ++ if fraction = [] then [] else '.' :: fraction := by
  unfold numeral
  by_cases h : fraction = [] <;> simp [h]

namespace Layout

theorem zeros_of_nonpos {n : Int} (h : n ≤ 0) : zeros n = [] := by
  unfold zeros
  rw [Int.toNat_of_nonpos h, List.replicate_zero]

theorem length_zeros (n : Int) : (zeros n).length = n.toNat := List.length_replicate

theorem digitsValue_zeros (n : Int) : digitsValue (zeros n) = 0 := digitsValue_replicate _

theorem isDigit_of_mem_zeros {n : Int} {c : Char} (hc : c ∈ zeros n) : c.isDigit = true := by
  rw [(List.mem_replicate.mp hc).2]
  rfl

/-- The digits before the point, and the ending if there are none behind it. -/
theorem writePositional_parts (ending : String) {d : Digits} (hd : d.digits ≠ []) :
    writePositional ending d =
      d.whole ++ if d.fraction = [] then ending.toList else '.' :: d.fraction := by
  have hlen := List.length_pos_iff.mpr hd
  unfold writePositional Digits.whole Digits.fraction
  split
  · rename_i h
    have : d.point.toNat = 0 := Int.toNat_of_nonpos h
    simp [this, hd]
  · rename_i h
    rw [zeros_of_nonpos (n := -d.point) (by omega), List.nil_append]
    split
    · rename_i hl
      have h1 : d.digits.take d.point.toNat = d.digits := List.take_of_length_le (by omega)
      have h2 : d.digits.drop d.point.toNat = [] := List.drop_of_length_le (by omega)
      simp [h1, h2]
    · rename_i hl
      have h2 : d.digits.drop d.point.toNat ≠ [] := by
        rw [ne_eq, List.drop_eq_nil_iff]
        omega
      rw [zeros_of_nonpos (n := d.point - d.digits.length) (by omega)]
      simp [h2]

theorem writePositional_eq {d : Digits} (hd : d.digits ≠ []) :
    writePositional "" d = numeral d.whole d.fraction := by
  rw [writePositional_parts "" hd, numeral_eq]
  rfl

end Layout

namespace Digits

variable {d : Digits}

theorem whole_ne_nil (hd : d.digits ≠ []) : d.whole ≠ [] := by
  have hlen := List.length_pos_iff.mpr hd
  unfold whole
  split
  · simp
  · intro h
    obtain ⟨h1, -⟩ := List.append_eq_nil_iff.mp h
    have := congrArg List.length h1
    rw [List.length_take, List.length_nil] at this
    omega

theorem isDigit_of_mem_whole (hd : ∀ c ∈ d.digits, c.isDigit = true) {c : Char}
    (hc : c ∈ d.whole) : c.isDigit = true := by
  unfold whole at hc
  split at hc
  · rw [List.mem_singleton.mp hc]
    rfl
  · rcases List.mem_append.mp hc with h | h
    · exact hd c (List.mem_of_mem_take h)
    · exact Layout.isDigit_of_mem_zeros h

theorem isDigit_of_mem_fraction (hd : ∀ c ∈ d.digits, c.isDigit = true) {c : Char}
    (hc : c ∈ d.fraction) : c.isDigit = true := by
  unfold fraction at hc
  rcases List.mem_append.mp hc with h | h
  · exact Layout.isDigit_of_mem_zeros h
  · exact hd c (List.mem_of_mem_drop h)

theorem length_fraction (d : Digits) :
    d.fraction.length = ((d.digits.length : Int) - d.point).toNat := by
  unfold fraction
  rw [List.length_append, Layout.length_zeros, List.length_drop]
  omega

theorem value_eq (d : Digits) :
    d.value = digitsValue d.whole + digitsValue d.fraction / 10 ^ d.fraction.length := by
  have hten : (10 : ℚ) ≠ 0 := by norm_num
  rw [length_fraction]
  unfold value whole fraction
  split
  · rename_i h
    have hp : d.point.toNat = 0 := Int.toNat_of_nonpos h
    rw [hp, List.drop_zero, digitsValue_append, Layout.digitsValue_zeros, zero_mul, Nat.zero_add,
      div_eq_mul_inv, ← zpow_natCast, ← zpow_neg]
    have he : -(((d.digits.length : Int) - d.point).toNat : Int) = d.point - d.digits.length := by
      omega
    rw [he]
    simp [digitsValue, digitValue]
  · rename_i h
    rw [Layout.zeros_of_nonpos (n := -d.point) (by omega), List.nil_append]
    rcases le_or_gt (d.digits.length : Int) d.point with hl | hl
    · -- the point stands behind the digits
      have h1 : d.digits.take d.point.toNat = d.digits := List.take_of_length_le (by omega)
      have h2 : d.digits.drop d.point.toNat = [] := List.drop_of_length_le (by omega)
      have h3 : ((d.digits.length : Int) - d.point).toNat = 0 := by omega
      rw [h1, h2, h3, digitsValue_append, Layout.digitsValue_zeros, Layout.length_zeros]
      have he : d.point - d.digits.length = ((d.point - d.digits.length).toNat : Int) := by omega
      conv_lhs => rw [he, zpow_natCast]
      simp [digitsValue]
    · -- the point stands among them
      rw [Layout.zeros_of_nonpos (n := d.point - d.digits.length) (by omega), List.append_nil]
      have hv : digitsValue d.digits = digitsValue (d.digits.take d.point.toNat) *
          10 ^ (d.digits.drop d.point.toNat).length + digitsValue (d.digits.drop d.point.toNat) := by
        rw [← digitsValue_append, List.take_append_drop]
      have hlen : (d.digits.drop d.point.toNat).length =
          ((d.digits.length : Int) - d.point).toNat := by
        rw [List.length_drop]
        omega
      have he : d.point - (d.digits.length : Int) =
          -(((d.digits.length : Int) - d.point).toNat : Int) := by omega
      rw [he, zpow_neg, zpow_natCast, hv, hlen]
      push_cast
      field_simp

end Digits

end ScoreSynth.Number
