import ScoreSynth.Proofs.Notation.Leftmost
import ScoreSynth.Proofs.Text.Bytes

/-!
# Scanning bytes for a note

The leftmost note of a text, looked for byte by byte: positions are tried one after the other, a run
of digits ends at a position, and what is found is cut out between two positions. Letters, digits,
accidentals and points are single bytes, so every cut falls between characters, and the scanner
finds on the bytes what the reader finds on the characters.
-/

namespace ScoreSynth.Notation

open Text (bytes byteAt slice StandsAt Narrow)

namespace Scanner

/-! ## The scanner -/

def isDigitByte (b : UInt8) : Bool := 48 ≤ b && b ≤ 57

def upperByte (b : UInt8) : UInt8 := if 97 ≤ b && b ≤ 122 then b - 32 else b

def isLetterByte (b : UInt8) : Bool := 65 ≤ upperByte b && upperByte b ≤ 71

def holds (bs : List UInt8) (n : Nat) (c : Char) : Bool := bs[n]? == some c.toUInt8

def digitsEnd (bs : List UInt8) (n : Nat) : Nat := n + ((bs.drop n).takeWhile isDigitByte).length

def accidentalAt (bs : List UInt8) (n : Nat) : Int × Nat :=
  if holds bs n '#' then (1, n + 1) else if holds bs n 'b' then (-1, n + 1) else (0, n)

def durationEnd (bs : List UInt8) (n : Nat) : Nat :=
  let last := digitsEnd bs n
  if holds bs last '.' && last + 1 < digitsEnd bs (last + 1) then digitsEnd bs (last + 1) else last

def scanAt (s : List Char) (n : Nat) : Except Fault (Option Spelling) := do
  let letter ← byteAt (bytes s) n
  if !isLetterByte letter then return none
  let (accidental, first) := accidentalAt (bytes s) (n + 1)
  let last := digitsEnd (bytes s) first
  if last == first || !holds (bytes s) last '.' then return none
  let start := last + 1
  if digitsEnd (bytes s) start == start then return none
  let octave ← slice s first last
  let duration ← slice s start (durationEnd (bytes s) start)
  return some ⟨Char.ofNat letter.toNat, accidental, octave, duration⟩

def scanFrom (s : List Char) : List Nat → Except Fault (Option Spelling)
  | [] => return none
  | n :: ns => do
    match ← scanAt s n with
    | some m => return some m
    | none => scanFrom s ns

def scan (s : List Char) : Except Fault (Option Spelling) :=
  scanFrom s (List.range (bytes s).length)

/-! ## Classes of bytes -/

theorem isDigitByte_iff {b : UInt8} :
    isDigitByte b = true ↔ 48 ≤ b.toNat ∧ b.toNat ≤ 57 := by
  unfold isDigitByte
  simp [UInt8.le_iff_toNat_le]

theorem isLetterByte_iff {b : UInt8} : isLetterByte b = true ↔
    (65 ≤ b.toNat ∧ b.toNat ≤ 71) ∨ (97 ≤ b.toNat ∧ b.toNat ≤ 103) := by
  have hlt := b.toNat_lt
  unfold isLetterByte upperByte
  by_cases h : 97 ≤ b.toNat ∧ b.toNat ≤ 122
  · have hsub : (b - 32).toNat = b.toNat - 32 := by
      apply UInt8.toNat_sub_of_le
      simp [UInt8.le_iff_toNat_le]
      omega
    simp [UInt8.le_iff_toNat_le, h, hsub]
    omega
  · simp [UInt8.le_iff_toNat_le, h]
    omega

theorem narrow_digits : Narrow isDigitByte Char.isDigit where
  low c h := by
    rw [Bool.eq_iff_iff, isDigitByte_iff, Text.isDigit_iff, Text.toNat_toUInt8 h]
  high_byte b h := by
    rw [Bool.eq_false_iff, Ne, isDigitByte_iff]
    omega
  high_char c h := by
    rw [Bool.eq_false_iff, Ne, Text.isDigit_iff]
    omega

theorem narrow_letters : Narrow isLetterByte Spelling.isLetter where
  low c h := by
    rw [Bool.eq_iff_iff, isLetterByte_iff, Spelling.isLetter_iff, Text.toNat_toUInt8 h]
  high_byte b h := by
    rw [Bool.eq_false_iff, Ne, isLetterByte_iff]
    omega
  high_char c h := by
    rw [Bool.eq_false_iff, Ne, Spelling.isLetter_iff]
    omega

/-! ## Runs and marks at a position -/

section
variable {s t : List Char} {n : Nat}

theorem holds_iff (h : StandsAt s n t) {c : Char} (hc : c.toNat < 128) :
    holds (bytes s) n c = true ↔ t.head? = some c := by
  unfold holds
  rw [beq_iff_eq, ← Nat.add_zero n, h.getElem?, Text.head?_bytes hc]

theorem length_bytes_digitsOf (t : List Char) :
    (bytes (Spelling.digitsOf t)).length = (Spelling.digitsOf t).length := by
  apply Text.length_bytes_of_lt
  intro c hc
  exact narrow_digits.lt (List.mem_takeWhile_imp hc)

theorem digitsEnd_eq (h : StandsAt s n t) :
    digitsEnd (bytes s) n = n + (bytes (Spelling.digitsOf t)).length := by
  unfold digitsEnd
  rw [h.drop, narrow_digits.length_takeWhile, length_bytes_digitsOf]
  rfl

theorem digitsEnd_eq_self_iff (h : StandsAt s n t) :
    digitsEnd (bytes s) n = n ↔ Spelling.digitsOf t = [] := by
  rw [digitsEnd_eq h, length_bytes_digitsOf, Nat.add_eq_left, List.length_eq_zero_iff]

theorem standsAt_digitsEnd (h : StandsAt s n t) :
    StandsAt s (digitsEnd (bytes s) n) (Spelling.afterDigits t) := by
  rw [← Spelling.digits_append t] at h
  have ha := h.append
  rwa [← digitsEnd_eq (t := t) (Spelling.digits_append t ▸ h)] at ha

theorem slice_digits (h : StandsAt s n t) :
    slice s n (digitsEnd (bytes s) n) = .ok (Spelling.digitsOf t) := by
  rw [digitsEnd_eq h]
  apply StandsAt.slice
  rw [Spelling.digits_append]
  exact h

theorem standsAt_tail {c : Char} (hc : c.toNat < 128) (h : StandsAt s n (c :: t)) :
    StandsAt s (n + 1) t := by
  have hone : (bytes [c]).length = 1 :=
    Text.length_bytes_of_lt fun d hd => by rwa [List.mem_singleton.mp hd]
  have ha := StandsAt.append (p := [c]) h
  rwa [hone] at ha

theorem accidentalAt_spec (h : StandsAt s n t) :
    (accidentalAt (bytes s) n).1 = (Spelling.accidentalOf t).1 ∧
      StandsAt s (accidentalAt (bytes s) n).2 (Spelling.accidentalOf t).2 := by
  unfold accidentalAt
  by_cases hsharp : t.head? = some '#'
  · obtain ⟨r, rfl⟩ := List.head?_eq_some_iff.mp hsharp
    rw [if_pos ((holds_iff h (by decide)).mpr hsharp)]
    exact ⟨rfl, standsAt_tail (by decide) h⟩
  · rw [if_neg (mt (holds_iff h (by decide)).mp hsharp)]
    by_cases hflat : t.head? = some 'b'
    · obtain ⟨r, rfl⟩ := List.head?_eq_some_iff.mp hflat
      rw [if_pos ((holds_iff h (by decide)).mpr hflat)]
      exact ⟨rfl, standsAt_tail (by decide) h⟩
    · rw [if_neg (mt (holds_iff h (by decide)).mp hflat)]
      have hplain : Spelling.accidentalOf t = (0, t) := by
        unfold Spelling.accidentalOf
        split
        · exact absurd rfl hsharp
        · exact absurd rfl hflat
        · rfl
      rw [hplain]
      exact ⟨rfl, h⟩

theorem slice_duration (h : StandsAt s n t) :
    slice s n (durationEnd (bytes s) n) = .ok (Spelling.durationOf t) := by
  have hlast := standsAt_digitsEnd h
  unfold durationEnd Spelling.durationOf
  by_cases hpoint : (Spelling.afterDigits t).head? = some '.'
  · obtain ⟨r, hr⟩ := List.head?_eq_some_iff.mp hpoint
    have hstart : StandsAt s (digitsEnd (bytes s) n + 1) r :=
      standsAt_tail (by decide) (hr ▸ hlast)
    have hholds : holds (bytes s) (digitsEnd (bytes s) n) '.' = true :=
      (holds_iff hlast (by decide)).mpr hpoint
    simp only [hr, hholds, Bool.true_and, decide_eq_true_eq]
    by_cases hf : Spelling.digitsOf r = []
    · have hself := (digitsEnd_eq_self_iff hstart).mpr hf
      rw [if_neg (by omega), if_pos (by rw [hf]; rfl)]
      exact slice_digits h
    · have hmore := mt (digitsEnd_eq_self_iff hstart).mp hf
      have hle : digitsEnd (bytes s) n + 1 ≤ digitsEnd (bytes s) (digitsEnd (bytes s) n + 1) :=
        Nat.le_add_right _ _
      rw [if_pos (by omega), if_neg (by simpa using hf)]
      -- the cut runs over both runs and the point between them
      have hend : digitsEnd (bytes s) (digitsEnd (bytes s) n + 1) =
          n + (bytes (Spelling.digitsOf t ++ '.' :: Spelling.digitsOf r)).length := by
        rw [digitsEnd_eq hstart, digitsEnd_eq h, Text.bytes_append, List.length_append,
          Text.length_bytes_cons]
        have hone : '.'.utf8Size = 1 := by decide
        omega
      rw [hend]
      apply StandsAt.slice
      rw [List.append_assoc, List.cons_append, Spelling.digits_append, ← hr, Spelling.digits_append]
      exact h
  · have hholds : holds (bytes s) (digitsEnd (bytes s) n) '.' = false := by
      rw [Bool.eq_false_iff]
      exact mt (holds_iff hlast (by decide)).mp hpoint
    simp only [hholds, Bool.false_and, Bool.false_eq_true, if_false]
    split
    · rename_i hr
      exact absurd (by rw [hr]; rfl) hpoint
    · exact slice_digits h

end

/-! ## One position and all of them -/

section
variable {s t r : List Char} {c : Char} {n : Nat}

/-- No note begins at any byte of what is no letter. -/
theorem scanAt_of_not_isLetter (h : StandsAt s n (c :: r)) (hc : Spelling.isLetter c = false)
    {i : Nat} (hi : i < c.utf8Size) : scanAt s (n + i) = .ok none := by
  have hlen : i < (String.utf8EncodeChar c).length := by rwa [String.length_utf8EncodeChar]
  have hget : (bytes s)[n + i]? = some (String.utf8EncodeChar c)[i] := by
    rw [h.getElem?, Text.bytes_cons, List.getElem?_append_left hlen, List.getElem?_eq_getElem hlen]
  -- not even the later bytes of a longer character pass for a letter
  have hletter := narrow_letters.utf8EncodeChar hc _ (List.getElem_mem hlen)
  unfold scanAt byteAt
  simp only [hget]
  show (if !isLetterByte _ then _ else _) = _
  rw [hletter]
  rfl

theorem scanAt_of_isLetter (h : StandsAt s n (c :: r)) (hc : Spelling.isLetter c = true) :
    scanAt s n = .ok (Spelling.at? (c :: r)) := by
  have hlow := narrow_letters.lt hc
  have hletter : isLetterByte c.toUInt8 = true := by rw [narrow_letters.low c hlow, hc]
  obtain ⟨haccidental, hfirst⟩ := accidentalAt_spec (standsAt_tail hlow h)
  have hlast := standsAt_digitsEnd hfirst
  have hnone := digitsEnd_eq_self_iff hfirst
  rw [Spelling.at?_cons, ← haccidental]
  unfold scanAt
  simp only [h.byteAt hlow]
  show (if !isLetterByte _ then _ else _) = _
  rw [hletter]
  generalize accidentalAt (bytes s) (n + 1) = found at *
  generalize Spelling.accidentalOf r = spelled at *
  obtain ⟨accidental, first⟩ := found
  simp only [Bool.not_true, Bool.false_eq_true, if_false, hc, true_and] at *
  by_cases ho : Spelling.digitsOf spelled.2 = []
  · rw [if_pos (by simp [hnone.mpr ho]), if_neg (by simp [ho])]
    rfl
  by_cases hpoint : (Spelling.afterDigits spelled.2).head? = some '.'
  · obtain ⟨d, hd⟩ := List.head?_eq_some_iff.mp hpoint
    have hholds : holds (bytes s) (digitsEnd (bytes s) first) '.' = true :=
      (holds_iff hlast (by decide)).mpr hpoint
    have hstart : StandsAt s (digitsEnd (bytes s) first + 1) d :=
      standsAt_tail (by decide) (hd ▸ hlast)
    rw [if_neg (by simp [mt hnone.mp ho, hholds]), hd, List.tail_cons]
    by_cases hf : Spelling.digitsOf d = []
    · rw [if_pos (by simp [(digitsEnd_eq_self_iff hstart).mpr hf]), if_neg (by simp [hf])]
      rfl
    · rw [if_neg (by simp [mt (digitsEnd_eq_self_iff hstart).mp hf]), if_pos (by simp [ho, hf]),
        slice_digits hfirst, slice_duration hstart, Text.toNat_toUInt8 hlow, Char.ofNat_toNat]
      rfl
  · have hholds := mt (holds_iff hlast (by decide)).mp hpoint
    rw [if_pos (by simp [hholds]), if_neg (by simp [hpoint])]
    rfl

/-- The scan of a position finds what begins there with a letter, or nothing. -/
theorem scanAt_of_lt (hn : n < (bytes s).length) :
    (∃ c r, StandsAt s n (c :: r) ∧ Spelling.isLetter c = true ∧
      scanAt s n = .ok (Spelling.at? (c :: r))) ∨ scanAt s n = .ok none := by
  obtain ⟨m, c, r, j, hat, heq, hj⟩ := Text.exists_char_of_lt (Text.standsAt_start s) hn
  rw [Nat.zero_add] at heq
  subst heq
  by_cases hc : Spelling.isLetter c = true
  · have hone := narrow_letters.utf8Size hc
    obtain rfl : j = 0 := by omega
    exact .inl ⟨c, r, hat, hc, scanAt_of_isLetter hat hc⟩
  · exact .inr (scanAt_of_not_isLetter hat (Bool.eq_false_iff.mpr hc) hj)

theorem scanFrom_append_of_none {ns : List Nat} (h : ∀ n ∈ ns, scanAt s n = .ok none)
    (ms : List Nat) : scanFrom s (ns ++ ms) = scanFrom s ms := by
  induction ns with
  | nil => rfl
  | cons n ns ih =>
    show (scanAt s n >>= _) = _
    rw [h n List.mem_cons_self]
    exact ih fun k hk => h k (List.mem_cons_of_mem n hk)

/-- Over the bytes of a character, a scan finds what begins with the character. -/
theorem scanFrom_char (h : StandsAt s n (c :: r)) (ns : List Nat) :
    scanFrom s (List.range' n c.utf8Size ++ ns) =
      match Spelling.at? (c :: r) with
      | some m => .ok (some m)
      | none => scanFrom s ns := by
  by_cases hc : Spelling.isLetter c = true
  · rw [narrow_letters.utf8Size hc]
    show (scanAt s n >>= _) = _
    rw [scanAt_of_isLetter h hc]
    cases Spelling.at? (c :: r) <;> rfl
  · have hnone : Spelling.at? (c :: r) = none := by
      rw [Spelling.at?_cons, if_neg fun hall => hc hall.1]
    rw [hnone, scanFrom_append_of_none]
    intro k hk
    obtain ⟨hle, hlt⟩ := List.mem_range'_1.mp hk
    have hat := scanAt_of_not_isLetter h (Bool.eq_false_iff.mpr hc) (i := k - n) (by omega)
    rwa [Nat.add_sub_cancel' hle] at hat

theorem scanFrom_eq (h : StandsAt s n t) :
    scanFrom s (List.range' n (bytes t).length) = .ok (Spelling.first? t) := by
  induction t generalizing n with
  | nil => rfl
  | cons c r ih =>
    have hrest : StandsAt s (n + c.utf8Size) r := by
      have ha := StandsAt.append (p := [c]) h
      rwa [Text.length_bytes_cons] at ha
    rw [Text.length_bytes_cons, ← List.range'_append_1, scanFrom_char h, ih hrest,
      Spelling.first?]
    cases Spelling.at? (c :: r) <;> rfl

/-- The scanner finds what the reader finds, and no position of its own making is out of place. -/
theorem scan_eq (s : List Char) : scan s = .ok (Spelling.first? s) := by
  unfold scan
  rw [List.range_eq_range']
  exact scanFrom_eq (Text.standsAt_start s)

end

end Scanner

end ScoreSynth.Notation
