import ScoreSynth.Json.Score
import ScoreSynth.Proofs.Beat.Machine

/-!
# Number literals

A spelled number is one literal up to the first character that cannot go on with it, and the decimal
of the literal has the parts of the spelling. So whole numbers are stored without loss, and the double
of a length in beats is too.
-/

namespace ScoreSynth.Json

open Number

/-- What follows does not go on with a number. -/
def Ends (r : List Char) : Prop :=
  ∀ c ∈ r.head?, c.isDigit = false ∧ c ≠ '.' ∧ c ≠ 'e' ∧ c ≠ 'E'

/-- The reader takes it as one literal, and for nothing else. -/
structure IsLiteral (s : List Char) : Prop where
  head : ∃ c r, s = c :: r ∧ (c = '-' ∨ c.isDigit = true)
  literal? : ∀ r, Ends r → literal? (s ++ r) = some (s, r)

section
variable {whole fraction exponent r : List Char} {n : Int}

theorem Ends.isDigit (h : Ends r) : ∀ c ∈ r.head?, c.isDigit = false := fun c hc => (h c hc).1

theorem digits?_append (hne : whole ≠ []) (hd : ∀ c ∈ whole, c.isDigit = true)
    (hr : ∀ c ∈ r.head?, c.isDigit = false) : digits? (whole ++ r) = some (whole, r) := by
  unfold digits?
  rw [takeWhile_digits_append hd hr, dropWhile_digits_append hd hr, if_neg (by simpa using hne)]

theorem digits?_decimalText (k : Nat) (hr : ∀ c ∈ r.head?, c.isDigit = false) :
    digits? (decimalText k ++ r) = some (decimalText k, r) :=
  digits?_append (decimalText_ne_nil k) (fun _ hc => isDigit_of_mem_decimalText hc) hr

theorem head_decimalText (k : Nat) : ∃ c s, decimalText k = c :: s ∧ c.isDigit = true := by
  cases h : decimalText k with
  | nil => exact absurd h (decimalText_ne_nil k)
  | cons c s => exact ⟨c, s, rfl, isDigit_of_mem_decimalText (h ▸ List.mem_cons_self)⟩

theorem ne_of_isDigit {c d : Char} (hc : c.isDigit = true) (hd : d.isDigit = false) : c ≠ d := by
  rintro rfl
  rw [hc] at hd
  exact Bool.noConfusion hd

/-! ## Reading a literal -/

theorem whole?_append (hs : Spelled whole fraction exponent n)
    (hr : ∀ c ∈ r.head?, c.isDigit = false) : whole? (whole ++ r) = some (whole, r) := by
  rcases hs.head with h | rfl
  · unfold whole?
    split
    · rename_i heq
      have happ : (whole ++ r).head? = whole.head? := List.head?_append_of_ne_nil _ hs.ne_nil
      rw [← happ, heq] at h
      exact absurd rfl h
    · exact digits?_append hs.ne_nil hs.whole_digits hr
  · rfl

theorem exponent?_append (he : Exponent exponent n) (hr : Ends r) :
    exponent? (exponent ++ r) = some (exponent, r) := by
  cases he with
  | none =>
    cases r with
    | nil => rfl
    | cons c r =>
      obtain ⟨-, -, he, hE⟩ := hr c rfl
      simp [exponent?, he, hE]
  | unsigned k =>
    obtain ⟨c, s, hc, hd⟩ := head_decimalText k
    have hplus := ne_of_isDigit hd (show '+'.isDigit = false by decide)
    have hminus := ne_of_isDigit hd (show '-'.isDigit = false by decide)
    have hk := digits?_decimalText k hr.isDigit
    rw [hc] at hk ⊢
    unfold exponent?
    rw [List.cons_append, List.cons_append]
    simp only [beq_self_eq_true, Bool.true_or, if_true]
    split
    · rename_i heq
      exact absurd (List.cons.inj heq).1 hplus
    · rename_i heq
      exact absurd (List.cons.inj heq).1 hminus
    · rw [← List.cons_append, hk]
      rfl
  | plus k => simp [exponent?, digits?_decimalText k hr.isDigit]
  | minus k => simp [exponent?, digits?_decimalText k hr.isDigit]

theorem head_exponent (he : Exponent exponent n) (hr : Ends r) :
    ∀ c ∈ (exponent ++ r).head?, c.isDigit = false ∧ c ≠ '.' := by
  intro c hc
  cases he with
  | none => exact ⟨(hr c hc).1, (hr c hc).2.1⟩
  | unsigned | plus | minus =>
    obtain rfl := Option.some.inj hc
    decide

theorem fraction?_append (hs : Spelled whole fraction exponent n) (hr : Ends r) :
    fraction? ((if fraction = [] then [] else '.' :: fraction) ++ (exponent ++ r)) =
      some (if fraction = [] then [] else '.' :: fraction, exponent ++ r) := by
  have hhead := head_exponent hs.exponent hr
  split
  · rw [List.nil_append]
    generalize exponent ++ r = t at hhead
    unfold fraction?
    split
    · exact absurd rfl (hhead '.' rfl).2
    · rfl
  · rename_i hf
    rw [List.cons_append, fraction?,
      digits?_append hf hs.fraction_digits fun c hc => (hhead c hc).1]
    rfl

theorem magnitude?_append (hs : Spelled whole fraction exponent n) (hr : Ends r) :
    magnitude? (numeral whole fraction ++ exponent ++ r) =
      some (numeral whole fraction ++ exponent, r) := by
  have hhead : ∀ c ∈ ((if fraction = [] then [] else '.' :: fraction) ++ (exponent ++ r)).head?,
      c.isDigit = false := by
    intro c hc
    split at hc
    · exact (head_exponent hs.exponent hr c hc).1
    · obtain rfl := Option.some.inj hc
      rfl
  rw [numeral_eq, List.append_assoc, List.append_assoc, magnitude?, whole?_append hs hhead]
  simp only [Option.bind_some, Option.map_some, fraction?_append hs hr,
    exponent?_append hs.exponent hr]

theorem head_numeral (hs : Spelled whole fraction exponent n) :
    ∃ c s, numeral whole fraction ++ exponent = c :: s ∧ c.isDigit = true := by
  rw [numeral_eq]
  cases hw : whole with
  | nil => exact absurd hw hs.ne_nil
  | cons c w => exact ⟨c, _, rfl, hs.whole_digits c (hw ▸ List.mem_cons_self)⟩

theorem isLiteral_spelled (hs : Spelled whole fraction exponent n) (negative : Bool) :
    IsLiteral (Layout.signed negative (numeral whole fraction ++ exponent)) := by
  obtain ⟨c, s, hc, hd⟩ := head_numeral hs
  cases negative with
  | true =>
    refine ⟨⟨_, _, rfl, .inl rfl⟩, fun r hr => ?_⟩
    simp only [Layout.signed, if_true, List.cons_append, literal?, magnitude?_append hs hr,
      Option.map_some]
  | false =>
    refine ⟨⟨c, s, hc, .inr hd⟩, fun r hr => ?_⟩
    have hm := magnitude?_append hs hr
    simp only [Layout.signed, Bool.false_eq_true, if_false]
    rw [hc] at hm ⊢
    unfold literal?
    split
    · rename_i heq
      exact absurd (List.cons.inj heq).1 (ne_of_isDigit hd (by decide))
    · exact hm

end

/-! ## The decimal of a literal -/

def exponentOf : List Char → Int
  | _ :: r => (Decimal.exponent? r).getD 0
  | [] => 0

def fractionOf : List Char → List Char × List Char
  | '.' :: r => (r.takeWhile Char.isDigit, r.dropWhile Char.isDigit)
  | s => ([], s)

def decimalOf (negative : Bool) (s : List Char) : Decimal :=
  let (fraction, rest) := fractionOf (s.dropWhile Char.isDigit)
  .ofParts negative (s.takeWhile Char.isDigit) fraction (exponentOf rest)
    (fraction.isEmpty && rest.isEmpty)

theorem decimal_minus (s : List Char) : decimal ('-' :: s) = decimalOf true s := rfl

theorem decimal_of_isDigit {c : Char} (hc : c.isDigit = true) (s : List Char) :
    decimal (c :: s) = decimalOf false (c :: s) := by
  unfold decimal
  split
  rename_i heq
  split at heq
  · rename_i hcons
    exact absurd (List.cons.inj hcons).1 (ne_of_isDigit hc (by decide))
  · obtain ⟨rfl, rfl⟩ := Prod.mk.inj heq
    rfl

section
variable {whole fraction exponent : List Char} {n : Int}

theorem exponentOf_eq (he : Exponent exponent n) : exponentOf exponent = n := by
  cases he with
  | none => rfl
  | unsigned k =>
    obtain ⟨c, s, hc, hd⟩ := head_decimalText k
    have hk : Decimal.exponent? (decimalText k) = some (k : Int) := by
      unfold Decimal.exponent?
      split
      · rename_i heq
        rw [hc] at heq
        exact absurd (List.cons.inj heq).1 (ne_of_isDigit hd (by decide))
      · rename_i heq
        rw [hc] at heq
        exact absurd (List.cons.inj heq).1 (ne_of_isDigit hd (by decide))
      · rw [natural?_decimalText]
        rfl
    rw [exponentOf, hk, Option.getD_some]
  | plus k => simp [exponentOf, Decimal.exponent?, natural?_decimalText]
  | minus k => simp [exponentOf, Decimal.exponent?, natural?_decimalText]

theorem decimalOf_spelled (hs : Spelled whole fraction exponent n) (negative : Bool) :
    decimalOf negative (numeral whole fraction ++ exponent) =
      .ofParts negative whole fraction n (fraction.isEmpty && exponent.isEmpty) := by
  have hhead := head_exponent hs.exponent (r := []) nofun
  rw [List.append_nil] at hhead
  have hdigit : ∀ c ∈ exponent.head?, c.isDigit = false := fun c hc => (hhead c hc).1
  unfold decimalOf
  rw [numeral_eq, List.append_assoc]
  by_cases hf : fraction = []
  · have hplain : fractionOf exponent = ([], exponent) := by
      unfold fractionOf
      split
      · exact absurd rfl (hhead '.' rfl).2
      · rfl
    rw [if_pos hf, List.nil_append, takeWhile_digits_append hs.whole_digits hdigit,
      dropWhile_digits_append hs.whole_digits hdigit, hplain, hf]
    simp only [exponentOf_eq hs.exponent]
  · have hpoint : ∀ c ∈ ('.' :: fraction ++ exponent).head?, c.isDigit = false := by
      intro c hc
      obtain rfl := Option.some.inj hc
      rfl
    have hfraction : fractionOf ('.' :: fraction ++ exponent) = (fraction, exponent) := by
      rw [List.cons_append, fractionOf, takeWhile_digits_append hs.fraction_digits hdigit,
        dropWhile_digits_append hs.fraction_digits hdigit]
    rw [if_neg hf, takeWhile_digits_append hs.whole_digits hpoint,
      dropWhile_digits_append hs.whole_digits hpoint, hfraction]
    simp only [exponentOf_eq hs.exponent]

/-- The decimal of a spelled number has the parts of its spelling. -/
theorem decimal_spelled (hs : Spelled whole fraction exponent n) (negative : Bool) :
    decimal (Layout.signed negative (numeral whole fraction ++ exponent)) =
      .ofParts negative whole fraction n (fraction.isEmpty && exponent.isEmpty) := by
  rw [← decimalOf_spelled hs]
  cases negative with
  | true => exact decimal_minus _
  | false =>
    obtain ⟨c, s, hc, hd⟩ := head_numeral hs
    simp only [Layout.signed, Bool.false_eq_true, if_false]
    rw [hc]
    exact decimal_of_isDigit hd s

end

/-! ## Stored numbers -/

section
variable {whole fraction exponent : List Char} {n : Int}

theorem decimal?_spelled (hs : Spelled whole fraction exponent n) (negative : Bool)
    (hsize : whole.length + fraction.length ≤ 75) (hn : n.natAbs ≤ 100) :
    (Value.number (Layout.signed negative (numeral whole fraction ++ exponent))).decimal? =
      some (.ofParts negative whole fraction n (fraction.isEmpty && exponent.isEmpty)) := by
  unfold Value.decimal?
  simp only
  rw [decimal_spelled hs, if_neg]
  rw [Decimal.passesDouble_ofParts negative _ hs hsize hn]
  exact Bool.false_ne_true

end

theorem isLiteral_writeBinary {l : Layout} (hl : l.wholeEnding = ".0") (w : Width) (x : Binary)
    (negative : Bool) : IsLiteral (Layout.signed negative (l.writeBinary w x)) := by
  unfold Layout.writeBinary
  split
  · obtain ⟨_, _, _, _, hs, ht, -⟩ := Layout.spelled_writeDigits hl Digits.normal_zero
    exact ht ▸ isLiteral_spelled hs negative
  · obtain ⟨_, _, _, _, hs, ht, -⟩ :=
      Layout.spelled_writeDigits hl (Digits.normal_shortest w l.tieUp x)
    exact ht ▸ isLiteral_spelled hs negative

theorem writeInt_eq (n : Int) :
    Layout.writeInt n = Layout.signed (n < 0) (numeral (decimalText n.natAbs) [] ++ []) := by
  rw [List.append_nil]
  unfold Layout.writeInt Layout.signed
  by_cases h : n < 0 <;> simp [h, numeral]

theorem isLiteral_writeInt (n : Int) : IsLiteral (Layout.writeInt n) := by
  rw [writeInt_eq]
  exact isLiteral_spelled (spelled_decimalText _) _

/-- A whole number with less than 75 digits reads back. -/
theorem int?_ofInt {n : Int} (h : n.natAbs < 10 ^ 75) : (ofInt n).int? = some n := by
  have hlen := length_decimalText_le (by decide) h
  have hv : digitsValue (decimalText n.natAbs ++ []) = n.natAbs := by
    rw [List.append_nil, digitsValue_decimalText]
  unfold Value.int? ofInt
  rw [writeInt_eq, decimal?_spelled (spelled_decimalText _) _ (by simpa using hlen) (by decide)]
  simp only [Option.bind_some, Decimal.ofParts, hv, List.isEmpty_nil, Bool.and_self, Bool.true_and]
  rcases lt_or_ge n 0 with hn | hn
  · have h0 : (n.natAbs == 0) = false := by simpa using hn.ne
    simp only [hn, h0, decide_true, Bool.and_false, Bool.not_false, if_true]
    exact congrArg some (by omega)
  · simp only [not_lt.mpr hn, decide_false, Bool.false_and, Bool.not_false, Bool.false_eq_true,
      if_true, if_false]
    exact congrArg some (by omega)

theorem intWithin?_ofInt {least greatest n : Int} (hl : least ≤ n) (hg : n ≤ greatest)
    (h : n.natAbs < 10 ^ 75) : (ofInt n).intWithin? least greatest = some n := by
  unfold Value.intWithin?
  rw [int?_ofInt h]
  simp [hl, hg]

theorem isNaN_isInf_beats (b : Beat) : (Float.isNaN b.beats || Float.isInf b.beats) = false := by
  rw [b.beats_spec.1.isNaN, b.isInf_beats]
  rfl

theorem write_beats (b : Beat) :
    doubles.write b.beats = String.ofList (doubles.writeBinary .double (.ofFloat b.beats)) := by
  have hsign := isNegative_of_unsigned b.beats_spec.1 b.unsigned_beats
  unfold Layout.write
  rw [b.beats_spec.1.isNaN, b.isInf_beats, hsign]
  rfl

/-- The double of a length in beats is read back from its fewest digits. -/
theorem float?_ofFloat_beats (b : Beat) : (ofFloat b.beats).float? = some b.beats := by
  have hx := ofWidth_ofFloat b.beats_spec.1 b.beats_ne_top
  have hlow : (Binary.ofFloat b.beats).significand = 0 ∨
      (10 : ℚ) ^ (-50 : Int) ≤ (Binary.ofFloat b.beats).value := by
    rcases Nat.eq_zero_or_pos b.ticks with h | h
    · rw [show b = .zero from Beat.ext_ticks h]
      exact .inl (by decide +kernel)
    · refine .inr ?_
      rw [b.value_beats]
      refine le_trans ?_ (Beat.le_quotient h)
      norm_num
  have hhigh : (Binary.ofFloat b.beats).value ≤ 10 ^ (50 : Int) := by
    rw [b.value_beats]
    exact b.quotient_le.trans (by norm_num)
  obtain ⟨whole, fraction, exponent, n, hs, ht, hsize, hn, hv⟩ :=
    Layout.spelled_writeBinary (l := doubles) rfl hx hlow hhigh
  have hd := decimal?_spelled hs false hsize hn
  simp only [Layout.signed, Bool.false_eq_true, if_false] at hd
  obtain ⟨num, den, hden, -, -, hm⟩ := Decimal.magnitude_ofParts .double false
    (fraction.isEmpty && exponent.isEmpty) hs hsize hn
  have hwidth : ((Decimal.ofParts false whole fraction n
      (fraction.isEmpty && exponent.isEmpty)).magnitude .double).OfWidth .double := by
    rw [hm]
    exact Binary.ofWidth_nearest (by decide) num hden
  have hback : (Decimal.ofParts false whole fraction n
      (fraction.isEmpty && exponent.isEmpty)).toFloat = b.beats := by
    show Binary.toFloat _ false = _
    rw [Binary.toFloat_congr hwidth hx (hv false _)]
    exact toFloat_ofFloat b.beats_spec.1 b.unsigned_beats b.beats_ne_top
  unfold ofFloat
  rw [isNaN_isInf_beats, if_neg Bool.false_ne_true, write_beats, String.toList_ofList, ht]
  unfold Value.float?
  rw [hd, Option.map_some, hback]

end ScoreSynth.Json
