import ScoreSynth.Notation.Token
import ScoreSynth.Proofs.Number.Numeral
import ScoreSynth.Proofs.Text.Letters

/-!
# The leftmost note of a text

A note is spelled by a letter from A to G in either case, a sign or none, an octave, a point and a
length, and each run of digits goes as far as the digits do. The note of a text is the one that
begins furthest to the left, and where it begins leaves no choice of what it is.
-/

namespace ScoreSynth.Notation

namespace Spelling

/-! ## Spellings -/

structure Run (t digits rest : List Char) : Prop where
  append : t = digits ++ rest
  ne_nil : digits ≠ []
  isDigit : ∀ c ∈ digits, c.isDigit = true
  maximal : ∀ c ∈ rest.head?, c.isDigit = false

inductive Sign : List Char → Int → Prop where
  | natural : Sign [] 0
  | sharp : Sign ['#'] 1
  | flat : Sign ['b'] (-1)

inductive Length (t : List Char) : List Char → Prop where
  | whole {w r : List Char} : Run t w r → (∀ q, r = '.' :: q → ∀ c ∈ q.head?, c.isDigit = false) →
      Length t w
  | pointed {w q f r : List Char} : Run t w ('.' :: q) → Run q f r → Length t (w ++ '.' :: f)

def IsNoteLetter (c : Char) : Prop := ('A' ≤ c ∧ c ≤ 'G') ∨ ('a' ≤ c ∧ c ≤ 'g')

def Front (t : List Char) (m : Spelling) : Prop :=
  ∃ sign r q, t = m.letter :: (sign ++ r) ∧ IsNoteLetter m.letter ∧ Sign sign m.accidental ∧
    Run r m.octave ('.' :: q) ∧ Length q m.duration

/-- The text holds a note that is spelled so, and none that begins before it. -/
def IsLeftmost (t : List Char) (m : Spelling) : Prop :=
  ∃ p q, t = p ++ q ∧ Front q m ∧
    ∀ p' q' m', t = p' ++ q' → p'.length < p.length → ¬Front q' m'

/-! ## Letters, runs and signs -/

section
variable {t d r : List Char}

theorem isSome_natural?_iff {c : Char} : (PitchClass.natural? c).isSome = true ↔
    65 ≤ c.toUpper.toNat ∧ c.toUpper.toNat ≤ 71 := by
  unfold PitchClass.natural?
  split
  case h_8 hc hd he hf hg ha hb =>
    have hne : ∀ d : Char, (c.toUpper = d → False) → c.toUpper.toNat ≠ d.toNat :=
      fun d h hn => h (Char.toNat_inj.mp hn)
    have ha : c.toUpper.toNat ≠ 65 := hne 'A' ha
    have hb : c.toUpper.toNat ≠ 66 := hne 'B' hb
    have hc : c.toUpper.toNat ≠ 67 := hne 'C' hc
    have hd : c.toUpper.toNat ≠ 68 := hne 'D' hd
    have he : c.toUpper.toNat ≠ 69 := hne 'E' he
    have hf : c.toUpper.toNat ≠ 70 := hne 'F' hf
    have hg : c.toUpper.toNat ≠ 71 := hne 'G' hg
    simp only [Option.isSome_none, Bool.false_eq_true, false_iff]
    omega
  all_goals
    rename_i h
    rw [h]
    decide

theorem isLetter_iff {c : Char} : isLetter c = true ↔
    (65 ≤ c.toNat ∧ c.toNat ≤ 71) ∨ (97 ≤ c.toNat ∧ c.toNat ≤ 103) := by
  unfold isLetter
  rw [isSome_natural?_iff]
  by_cases h : c.isLower = true
  · have hl := Text.isLower_iff.mp h
    rw [Text.toNat_toUpper_of_isLower h]
    omega
  · have hl := mt Text.isLower_iff.mpr h
    rw [Text.toUpper_of_not_isLower h]
    omega

theorem isNoteLetter_iff {c : Char} : IsNoteLetter c ↔ isLetter c = true := isLetter_iff.symm

theorem digits_append (t : List Char) : digitsOf t ++ afterDigits t = t :=
  List.takeWhile_append_dropWhile

theorem run_iff : Run t d r ↔ d = digitsOf t ∧ r = afterDigits t ∧ d ≠ [] := by
  constructor
  · rintro ⟨rfl, hne, hd, hr⟩
    exact ⟨(Number.takeWhile_digits_append hd hr).symm,
      (Number.dropWhile_digits_append hd hr).symm, hne⟩
  · rintro ⟨rfl, rfl, hne⟩
    refine ⟨(digits_append t).symm, hne, fun c hc => List.mem_takeWhile_imp hc, fun c hc => ?_⟩
    obtain ⟨s, hs⟩ := List.head?_eq_some_iff.mp hc
    have hnot := List.head_dropWhile_not Char.isDigit (l := t) (by
      unfold afterDigits at hs
      simp [hs])
    unfold afterDigits at hs
    simpa [hs] using hnot

theorem digitsOf_eq_nil_iff : digitsOf t = [] ↔ ∀ c ∈ t.head?, c.isDigit = false := by
  unfold digitsOf
  cases t with
  | nil => simp
  | cons c t => by_cases h : c.isDigit = true <;> simp [h]

theorem sign_accidentalOf (t : List Char) :
    ∃ sign, t = sign ++ (accidentalOf t).2 ∧ Sign sign (accidentalOf t).1 := by
  unfold accidentalOf
  split
  · exact ⟨['#'], rfl, .sharp⟩
  · exact ⟨['b'], rfl, .flat⟩
  · exact ⟨[], rfl, .natural⟩

theorem accidentalOf_append {sign : List Char} {a : Int} (hs : Sign sign a)
    (hr : digitsOf r ≠ []) : accidentalOf (sign ++ r) = (a, r) := by
  cases hs with
  | sharp => rfl
  | flat => rfl
  | natural =>
    -- no sign is a digit, so the digits are not taken for one
    rw [List.nil_append]
    unfold accidentalOf
    split
    · exact absurd rfl hr
    · exact absurd rfl hr
    · rfl

theorem length_iff : Length t d ↔ digitsOf t ≠ [] ∧ d = durationOf t := by
  unfold durationOf
  constructor
  · rintro (⟨h, hnot⟩ | ⟨h, hf⟩)
    · obtain ⟨rfl, rfl, hne⟩ := run_iff.mp h
      refine ⟨hne, ?_⟩
      split
      · rename_i q hq
        rw [if_pos (by simpa using digitsOf_eq_nil_iff.mpr (hnot q hq))]
      · rfl
    · obtain ⟨rfl, ha, hne⟩ := run_iff.mp h
      obtain ⟨rfl, -, hfne⟩ := run_iff.mp hf
      rw [← ha]
      exact ⟨hne, (if_neg (by simpa using hfne)).symm⟩
  · rintro ⟨hne, rfl⟩
    have hrun := run_iff.mpr ⟨rfl, rfl, hne⟩
    split
    · rename_i q hq
      rw [hq] at hrun
      by_cases hf : digitsOf q = []
      · rw [if_pos (by simpa using hf)]
        refine .whole hrun fun q' hq' => ?_
        cases hq'
        exact digitsOf_eq_nil_iff.mp hf
      · rw [if_neg (by simpa using hf)]
        exact .pointed hrun (run_iff.mpr ⟨rfl, rfl, hf⟩)
    · rename_i hnot
      exact .whole hrun fun q hq => absurd hq (hnot q)

end

/-! ## The front of a text -/

section
variable {t : List Char} {m : Spelling}

theorem at?_cons (c : Char) (r : List Char) : at? (c :: r) =
    if isLetter c = true ∧ digitsOf (accidentalOf r).2 ≠ [] ∧
        (afterDigits (accidentalOf r).2).head? = some '.' ∧
        digitsOf (afterDigits (accidentalOf r).2).tail ≠ [] then
      some ⟨c, (accidentalOf r).1, digitsOf (accidentalOf r).2,
        durationOf (afterDigits (accidentalOf r).2).tail⟩
    else none := by
  unfold at?
  simp only
  split
  · rename_i hl hd ha
    rw [hl, hd, ha]
    simp
  · rename_i hnot
    rw [if_neg]
    rintro ⟨hl, hd, ha, -⟩
    obtain ⟨o, os, hd⟩ := List.exists_cons_of_ne_nil hd
    obtain ⟨d, ha⟩ := List.head?_eq_some_iff.mp ha
    exact hnot o os d hl hd ha

theorem at?_eq_some_iff : at? t = some m ↔ Front t m := by
  constructor
  · intro h
    cases t with
    | nil => cases h
    | cons c r =>
      rw [at?_cons] at h
      split at h
      · rename_i hall
        obtain ⟨hl, ho, hpoint, hd⟩ := hall
        obtain rfl := Option.some.inj h
        obtain ⟨sign, hsign, hs⟩ := sign_accidentalOf r
        obtain ⟨q, hq⟩ := List.head?_eq_some_iff.mp hpoint
        rw [hq, List.tail_cons] at hd
        refine ⟨sign, (accidentalOf r).2, q, congrArg (c :: ·) hsign, isNoteLetter_iff.mpr hl, hs,
          run_iff.mpr ⟨rfl, hq.symm, ho⟩, ?_⟩
        rw [hq]
        exact length_iff.mpr ⟨hd, rfl⟩
      · cases h
  · rintro ⟨sign, r, q, rfl, hl, hs, hrun, hlen⟩
    obtain ⟨ho, ha, hne⟩ := run_iff.mp hrun
    obtain ⟨hd, hdur⟩ := length_iff.mp hlen
    rw [ho] at hne
    rw [at?_cons, accidentalOf_append hs hne, if_pos]
    · simp only
      rw [← ho, ← ha, List.tail_cons, ← hdur]
    · refine ⟨isNoteLetter_iff.mp hl, hne, ?_, ?_⟩
      · simp only
        rw [← ha, List.head?_cons]
      · simp only
        rw [← ha, List.tail_cons]
        exact hd

/-! ## The leftmost note -/

theorem isLeftmost_of_front {m' : Spelling} (hf : Front t m') : IsLeftmost t m ↔ m' = m := by
  constructor
  · rintro ⟨p, q, rfl, hfront, hfirst⟩
    cases p with
    | nil =>
      rw [← at?_eq_some_iff] at hf hfront
      exact Option.some.inj (hf.symm.trans hfront)
    | cons c p => exact absurd hf (hfirst [] _ m' rfl (Nat.succ_pos _))
  · rintro rfl
    exact ⟨[], t, rfl, hf, fun p' _ _ _ hlt => absurd hlt (Nat.not_lt_zero _)⟩

theorem isLeftmost_cons {c : Char} (hnot : ∀ m', ¬Front (c :: t) m') :
    IsLeftmost (c :: t) m ↔ IsLeftmost t m := by
  constructor
  · rintro ⟨p, q, ht, hfront, hfirst⟩
    cases p with
    | nil =>
      rw [List.nil_append] at ht
      exact absurd (ht ▸ hfront) (hnot m)
    | cons d p =>
      obtain ⟨rfl, rfl⟩ := List.cons.inj ht
      refine ⟨p, q, rfl, hfront, fun p' q' m' heq hlt => ?_⟩
      exact hfirst (c :: p') q' m' (by rw [heq, List.cons_append]) (Nat.succ_lt_succ hlt)
  · rintro ⟨p, q, rfl, hfront, hfirst⟩
    refine ⟨c :: p, q, rfl, hfront, fun p' q' m' heq hlt => ?_⟩
    cases p' with
    | nil =>
      rw [List.nil_append] at heq
      exact heq ▸ hnot m'
    | cons d p' =>
      exact hfirst p' q' m' (List.cons.inj heq).2 (Nat.lt_of_succ_lt_succ hlt)

theorem first?_eq_some_iff : first? t = some m ↔ IsLeftmost t m := by
  induction t with
  | nil =>
    constructor
    · intro h
      cases h
    · rintro ⟨p, q, ht, hfront, -⟩
      obtain ⟨rfl, rfl⟩ := List.append_eq_nil_iff.mp ht.symm
      cases at?_eq_some_iff.mpr hfront
  | cons c t ih =>
    rw [first?]
    cases hat : at? (c :: t) with
    | some m' =>
      rw [Option.some_or, Option.some.injEq, isLeftmost_of_front (at?_eq_some_iff.mp hat)]
    | none =>
      rw [Option.none_or, ih, isLeftmost_cons]
      intro m' hfront
      rw [at?_eq_some_iff.mpr hfront] at hat
      cases hat

example : first? "Cb Hbb4.1.5.2".toList = some ⟨'b', -1, ['4'], "1.5".toList⟩ := by decide

theorem IsLeftmost.unique {m' : Spelling} (h : IsLeftmost t m) (h' : IsLeftmost t m') : m = m' := by
  rw [← first?_eq_some_iff] at h h'
  exact Option.some.inj (h.symm.trans h')

theorem IsLeftmost.accidental (h : IsLeftmost t m) : -1 ≤ m.accidental ∧ m.accidental ≤ 1 := by
  obtain ⟨p, q, rfl, ⟨sign, r, d, -, -, hs, -⟩, -⟩ := h
  generalize m.accidental = a at hs
  cases hs <;> decide

end

end Spelling

end ScoreSynth.Notation
