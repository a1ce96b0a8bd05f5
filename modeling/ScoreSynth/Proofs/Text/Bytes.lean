import ScoreSynth.Proofs.Number.Words

/-!
# Bytes of a text

A text as bytes, with positions that count them. A character of the first 128 is one byte of its own
number, and all bytes of any other are 128 and more, so what is found among the bytes by one of the
first 128 is found among the characters, and there a character begins.
-/

namespace ScoreSynth.Text

def bytes (s : List Char) : List UInt8 := s.flatMap String.utf8EncodeChar

def byteAt (bs : List UInt8) (i : Nat) : Except Fault UInt8 :=
  match bs[i]? with
  | some b => .ok b
  | none => .error .outOfRange

/-- The text from a position on, if a character begins there or the text ends. -/
def dropBytes? (n : Nat) : List Char → Option (List Char)
  | [] => if n = 0 then some [] else none
  | c :: s =>
    if n = 0 then some (c :: s)
    else if c.utf8Size ≤ n then dropBytes? (n - c.utf8Size) s
    else none

def takeBytes? (n : Nat) : List Char → Option (List Char)
  | [] => if n = 0 then some [] else none
  | c :: s =>
    if n = 0 then some []
    else if c.utf8Size ≤ n then (takeBytes? (n - c.utf8Size) s).map (c :: ·)
    else none

def slice (s : List Char) (first last : Nat) : Except Fault (List Char) :=
  if first ≤ last then
    match (dropBytes? first s).bind (takeBytes? (last - first)) with
    | some t => .ok t
    | none => .error .offBoundary
  else .error .offBoundary

/-! ## Bytes of a character -/

section
variable {c : Char}

theorem utf8EncodeChar_of_lt (h : c.toNat < 128) : String.utf8EncodeChar c = [c.toUInt8] := by
  unfold String.utf8EncodeChar
  exact if_pos (Nat.le_of_lt_succ h)

theorem toNat_toUInt8 (h : c.toNat < 128) : c.toUInt8.toNat = c.toNat := by
  show (UInt8.ofNat c.toNat).toNat = c.toNat
  rw [UInt8.toNat_ofNat']
  omega

/-- Every byte of a character that has more than one is past the first 128. -/
theorem le_of_mem_utf8EncodeChar (h : 128 ≤ c.toNat) {b : UInt8}
    (hb : b ∈ String.utf8EncodeChar c) : 128 ≤ b.toNat := by
  have hlow : ¬c.val.toNat ≤ 127 := by
    have : c.val.toNat = c.toNat := rfl
    omega
  unfold String.utf8EncodeChar at hb
  simp only [hlow, if_false] at hb
  split at hb
  · simp only [List.mem_cons, List.not_mem_nil, or_false] at hb
    rcases hb with rfl | rfl <;> simp only [UInt8.toNat_ofNat'] <;> omega
  · split at hb
    · simp only [List.mem_cons, List.not_mem_nil, or_false] at hb
      rcases hb with rfl | rfl | rfl <;> simp only [UInt8.toNat_ofNat'] <;> omega
    · simp only [List.mem_cons, List.not_mem_nil, or_false] at hb
      rcases hb with rfl | rfl | rfl | rfl <;> simp only [UInt8.toNat_ofNat'] <;> omega

end

theorem bytes_cons (c : Char) (s : List Char) :
    bytes (c :: s) = String.utf8EncodeChar c ++ bytes s :=
  List.flatMap_cons

theorem bytes_append (s t : List Char) : bytes (s ++ t) = bytes s ++ bytes t := List.flatMap_append

theorem length_bytes_cons (c : Char) (s : List Char) :
    (bytes (c :: s)).length = c.utf8Size + (bytes s).length := by
  rw [bytes_cons, List.length_append, String.length_utf8EncodeChar]

/-! ## Positions -/

theorem dropBytes?_append (p t : List Char) : dropBytes? (bytes p).length (p ++ t) = some t := by
  induction p with
  | nil => cases t <;> rfl
  | cons c p ih =>
    have hpos := c.utf8Size_pos
    have hsize := length_bytes_cons c p
    rw [List.cons_append, dropBytes?, if_neg (by omega), if_pos (by omega), hsize,
      Nat.add_sub_cancel_left]
    exact ih

theorem takeBytes?_append (p t : List Char) : takeBytes? (bytes p).length (p ++ t) = some p := by
  induction p with
  | nil => cases t <;> rfl
  | cons c p ih =>
    have hpos := c.utf8Size_pos
    have hsize := length_bytes_cons c p
    rw [List.cons_append, takeBytes?, if_neg (by omega), if_pos (by omega), hsize,
      Nat.add_sub_cancel_left, ih]
    rfl

def StandsAt (s : List Char) (n : Nat) (t : List Char) : Prop :=
  ∃ p, s = p ++ t ∧ (bytes p).length = n

section
variable {s t : List Char} {n : Nat}

theorem standsAt_start (s : List Char) : StandsAt s 0 s := ⟨[], rfl, rfl⟩

theorem StandsAt.append {p : List Char} (h : StandsAt s n (p ++ t)) :
    StandsAt s (n + (bytes p).length) t := by
  obtain ⟨q, rfl, rfl⟩ := h
  exact ⟨q ++ p, by simp, by rw [bytes_append, List.length_append]⟩

theorem StandsAt.drop (h : StandsAt s n t) : (bytes s).drop n = bytes t := by
  obtain ⟨p, rfl, rfl⟩ := h
  rw [bytes_append, List.drop_left]

theorem StandsAt.getElem? (h : StandsAt s n t) (i : Nat) : (bytes s)[n + i]? = (bytes t)[i]? := by
  rw [← h.drop, List.getElem?_drop]

theorem StandsAt.slice {p : List Char} (h : StandsAt s n (p ++ t)) :
    slice s n (n + (bytes p).length) = .ok p := by
  obtain ⟨q, rfl, rfl⟩ := h
  unfold Text.slice
  rw [if_pos (Nat.le_add_right _ _), dropBytes?_append, Option.bind_some, Nat.add_sub_cancel_left,
    takeBytes?_append]

end

/-! ## The first 128 characters -/

section
variable {c : Char} {s t : List Char}

theorem length_bytes_of_lt (h : ∀ c ∈ s, c.toNat < 128) : (bytes s).length = s.length := by
  induction s with
  | nil => rfl
  | cons c s ih =>
    rw [bytes_cons, utf8EncodeChar_of_lt (h c List.mem_cons_self)]
    simpa using ih fun d hd => h d (List.mem_cons_of_mem c hd)

/-- A class of bytes and a class of characters that are the same within the first 128. -/
structure Narrow (P : UInt8 → Bool) (Q : Char → Bool) : Prop where
  low : ∀ c : Char, c.toNat < 128 → P c.toUInt8 = Q c
  high_byte : ∀ b : UInt8, 128 ≤ b.toNat → P b = false
  high_char : ∀ c : Char, 128 ≤ c.toNat → Q c = false

section
variable {P : UInt8 → Bool} {Q : Char → Bool} (h : Narrow P Q)
include h

theorem Narrow.lt (hc : Q c = true) : c.toNat < 128 := by
  refine Nat.lt_of_not_le fun hle => ?_
  rw [h.high_char c hle] at hc
  cases hc

theorem Narrow.utf8Size (hc : Q c = true) : c.utf8Size = 1 := by
  rw [← String.length_utf8EncodeChar, utf8EncodeChar_of_lt (h.lt hc)]
  rfl

theorem Narrow.utf8EncodeChar (hc : Q c = false) : ∀ b ∈ String.utf8EncodeChar c, P b = false := by
  intro b hb
  by_cases hlt : c.toNat < 128
  · rw [utf8EncodeChar_of_lt hlt, List.mem_singleton] at hb
    rw [hb, h.low c hlt, hc]
  · exact h.high_byte b (le_of_mem_utf8EncodeChar (by omega) hb)

theorem Narrow.length_takeWhile (s : List Char) :
    ((bytes s).takeWhile P).length = (s.takeWhile Q).length := by
  induction s with
  | nil => rfl
  | cons c s ih =>
    rw [bytes_cons]
    by_cases hc : Q c = true
    · have hlt := h.lt hc
      have hP : P c.toUInt8 = true := by rw [h.low c hlt, hc]
      rw [utf8EncodeChar_of_lt hlt, List.singleton_append, List.takeWhile_cons_of_pos hP,
        List.takeWhile_cons_of_pos hc, List.length_cons, List.length_cons, ih]
    · have hfalse : Q c = false := by simpa using hc
      obtain ⟨b, bs, hb⟩ := List.exists_cons_of_ne_nil (String.utf8EncodeChar_ne_nil (c := c))
      have hP : P b = false := h.utf8EncodeChar hfalse b (hb ▸ List.mem_cons_self)
      rw [hb, List.cons_append, List.takeWhile_cons_of_neg (by simp [hP]),
        List.takeWhile_cons_of_neg hc]
      rfl

end

theorem head?_bytes (hc : c.toNat < 128) :
    (bytes s)[0]? = some c.toUInt8 ↔ s.head? = some c := by
  cases s with
  | nil => simp [bytes]
  | cons d s =>
    rw [bytes_cons, List.head?_cons, Option.some.injEq]
    by_cases hd : d.toNat < 128
    · rw [utf8EncodeChar_of_lt hd]
      simp only [List.singleton_append, List.getElem?_cons_zero, Option.some.injEq]
      constructor
      · intro h
        have hnat := congrArg UInt8.toNat h
        rw [toNat_toUInt8 hd, toNat_toUInt8 hc] at hnat
        exact Char.toNat_inj.mp hnat
      · rintro rfl
        rfl
    · constructor
      · intro h
        rw [List.getElem?_append_left (List.length_pos_iff.mpr String.utf8EncodeChar_ne_nil)] at h
        have hle := le_of_mem_utf8EncodeChar (by omega) (List.mem_of_getElem? h)
        rw [toNat_toUInt8 hc] at hle
        omega
      · rintro rfl
        exact absurd hc hd

theorem StandsAt.byteAt {n : Nat} (h : StandsAt s n (c :: t)) (hc : c.toNat < 128) :
    byteAt (bytes s) n = .ok c.toUInt8 := by
  have hget : (bytes s)[n]? = some c.toUInt8 := by
    rw [← Nat.add_zero n, h.getElem?, head?_bytes hc]
    rfl
  unfold Text.byteAt
  rw [hget]

end

/-! ## Positions of characters -/

section
variable {bs : List UInt8} {s t : List Char} {n : Nat}

theorem byteAt_eq_ok_iff {b : UInt8} : byteAt bs n = .ok b ↔ ∃ h : n < bs.length, bs[n] = b := by
  rw [← List.getElem?_eq_some_iff]
  unfold byteAt
  cases bs[n]? <;> simp

/-- A position within a text is that of some byte of a character. -/
theorem exists_char_of_lt (h : StandsAt s n t) {i : Nat} (hi : i < (bytes t).length) :
    ∃ m c r j, StandsAt s m (c :: r) ∧ n + i = m + j ∧ j < c.utf8Size := by
  induction t generalizing n i with
  | nil => cases hi
  | cons c r ih =>
    rw [length_bytes_cons] at hi
    by_cases hc : i < c.utf8Size
    · exact ⟨n, c, r, i, h, rfl, hc⟩
    · have hrest : StandsAt s (n + (bytes [c]).length) r := StandsAt.append (p := [c]) h
      have hone : (bytes [c]).length = c.utf8Size := length_bytes_cons c []
      obtain ⟨m, d, q, j, hat, heq, hj⟩ := ih hrest (i := i - c.utf8Size) (by omega)
      exact ⟨m, d, q, j, hat, by omega, hj⟩

end

end ScoreSynth.Text
