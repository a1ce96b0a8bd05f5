import ScoreSynth.Proofs.Beat.Grammar
import ScoreSynth.Proofs.Notation.Scanner
import ScoreSynth.Proofs.Text.Trim

/-!
# Melodic tokens

A melodic token is a note if the leftmost note spelled in it lands in an octave from 0 to 10 and
lasts a tick at least. Read byte by byte and on words of the machine it is the same note, or it is
refused for the same reason.
-/

namespace ScoreSynth

theorem PitchClass.natural?_le {letter : Char} {n : Nat} (h : natural? letter = some n) :
    n ≤ 11 := by
  unfold natural? at h
  split at h
  case h_8 => cases h
  all_goals
    obtain rfl := Option.some.inj h
    decide

theorem PitchClass.spell?_of_none {letter : Char} (h : natural? letter = none) (a : Int) :
    spell? letter a = none := by
  unfold spell?
  rw [h]
  rfl

theorem PitchClass.spell?_eq {letter : Char} {n : Nat} {a : Int} (hn : natural? letter = some n)
    (ha : -1 ≤ a ∧ a ≤ 1) :
    spell? letter a = some (ofIndex ((n + a) % 12).toNat, (n + a) / 12) := by
  have hle := natural?_le hn
  -- the sum is far from the ends of its word
  have hraw : Int.bmod (n + a) 0x100000000 = n + a := by
    apply Int.bmod_eq_of_le <;> omega
  unfold spell?
  rw [hn]
  show some (ofIndex (Int.bmod (n + a) 0x100000000 % 12).toNat,
    Int.bmod (n + a) 0x100000000 / 12) = _
  rw [hraw]

namespace Notation

namespace Spelling

/-- The spelling stands for this pitch; its octave is the one after respelling. -/
structure Denotes (m : Spelling) (p : PitchClass) (octave : Int) : Prop where
  low : 0 ≤ octave
  high : octave ≤ 10
  index_lt : p.index < 12
  semitones : ∃ n, PitchClass.natural? m.letter = some n ∧
    12 * octave + p.index = 12 * Number.digitsValue m.octave + n + m.accidental

section
variable {t : List Char} {m : Spelling} {p : PitchClass} {octave : Int}

theorem pitch?_eq_some_iff (h : IsLeftmost t m) :
    m.pitch? = some (p, octave) ↔ Denotes m p octave := by
  have ha := h.accidental
  unfold pitch?
  cases hn : PitchClass.natural? m.letter with
  | none =>
    rw [PitchClass.spell?_of_none hn]
    constructor
    · intro hp
      cases hp
    · rintro ⟨-, -, -, n, hn', -⟩
      rw [hn] at hn'
      cases hn'
  | some n =>
    rw [PitchClass.spell?_eq hn ha, Option.bind_some]
    simp only
    have hmod : (((n : Int) + m.accidental) % 12).toNat < 12 := by omega
    have hindex := PitchClass.index_ofIndex hmod
    constructor
    · intro hp
      split at hp
      · rename_i hrange
        cases hp
        refine ⟨hrange.1, hrange.2, PitchClass.index_lt _, n, hn, ?_⟩
        rw [hindex]
        omega
      · cases hp
    · rintro ⟨hlow, hhigh, hlt, n', hn', hsemitones⟩
      obtain rfl : n = n' := Option.some.inj (hn.symm.trans hn')
      have hp : p = PitchClass.ofIndex (((n : Int) + m.accidental) % 12).toNat := by
        rw [← PitchClass.ofIndex_index p]
        congr 1
        omega
      have ho : (Number.digitsValue m.octave : Int) + (n + m.accidental) / 12 = octave := by omega
      rw [ho, if_pos ⟨hlow, hhigh⟩, hp]

end

end Spelling

/-! ## What is read -/

section
variable {token : List Char} {m : Spelling} {p : PitchClass} {octave : Int} {b : Beat}

structure Found (token : List Char) (m : Spelling) (p : PitchClass) (octave : Int) (b : Beat) :
    Prop where
  leftmost : Spelling.IsLeftmost (Text.trim token) m
  denotes : m.Denotes p octave
  lasts : Beat.parse? m.duration = some b

theorem found_iff : Found token m p octave b ↔
    Spelling.first? (Text.trim token) = some m ∧ m.pitch? = some (p, octave) ∧
      Beat.parse? m.duration = some b := by
  constructor
  · rintro ⟨hm, hp, hb⟩
    exact ⟨Spelling.first?_eq_some_iff.mpr hm, (Spelling.pitch?_eq_some_iff hm).mpr hp, hb⟩
  · rintro ⟨hm, hp, hb⟩
    rw [Spelling.first?_eq_some_iff] at hm
    exact ⟨hm, (Spelling.pitch?_eq_some_iff hm).mp hp, hb⟩

theorem melodicNote_of_found (h : Found token m p octave b) : Token.melodicNote token =
    if b.isZero then .error ⟨.invalidDuration, Text.trim token⟩ else .ok (.melodic p octave b) := by
  obtain ⟨hm, hp, hb⟩ := found_iff.mp h
  unfold Token.melodicNote
  simp only [hm, hp, hb, Option.bind_some, Option.map_some]
  rw [Diagnostic.on, Text.trim_trim]
  rfl

theorem melodicNote_of_not_found (h : ∀ m p octave b, ¬Found token m p octave b) :
    Token.melodicNote token = .error ⟨.unmatchedToken, Text.trim token⟩ := by
  unfold Token.melodicNote
  simp only
  split
  · rw [Diagnostic.on, Text.trim_trim]
  · rename_i n hn
    simp only [Option.bind_eq_some_iff, Option.map_eq_some_iff] at hn
    obtain ⟨m, hm, ⟨p, octave⟩, hp, b, hb, -⟩ := hn
    exact absurd (found_iff.mpr ⟨hm, hp, hb⟩) (h m p octave b)

theorem melodicNote_eq_ok_iff {n : Note} : Token.melodicNote token = .ok n ↔
    ∃ m p octave b, Found token m p octave b ∧ 1 ≤ b.ticks ∧ n = .melodic p octave b := by
  constructor
  · intro hn
    by_cases h : ∃ m p octave b, Found token m p octave b
    · obtain ⟨m, p, octave, b, h⟩ := h
      rw [melodicNote_of_found h] at hn
      split at hn
      · cases hn
      · rename_i hz
        cases hn
        exact ⟨m, p, octave, b, h, Nat.pos_of_ne_zero (mt Beat.isZero_iff.mpr hz), rfl⟩
    · rw [melodicNote_of_not_found fun m p octave b hf => h ⟨m, p, octave, b, hf⟩] at hn
      cases hn
  · rintro ⟨m, p, octave, b, h, hle, rfl⟩
    rw [melodicNote_of_found h, if_neg]
    rw [Beat.isZero_iff]
    omega

theorem melodicNote_eq_invalid_iff :
    Token.melodicNote token = .error ⟨.invalidDuration, Text.trim token⟩ ↔
      ∃ m p octave b, Found token m p octave b ∧ b.ticks = 0 := by
  constructor
  · intro hn
    by_cases h : ∃ m p octave b, Found token m p octave b
    · obtain ⟨m, p, octave, b, h⟩ := h
      rw [melodicNote_of_found h] at hn
      split at hn
      · rename_i hz
        exact ⟨m, p, octave, b, h, Beat.isZero_iff.mp hz⟩
      · cases hn
    · rw [melodicNote_of_not_found fun m p octave b hf => h ⟨m, p, octave, b, hf⟩] at hn
      cases hn
  · rintro ⟨m, p, octave, b, h, hz⟩
    rw [melodicNote_of_found h, if_pos (Beat.isZero_iff.mpr hz)]

theorem melodicNote_eq_unmatched_iff :
    Token.melodicNote token = .error ⟨.unmatchedToken, Text.trim token⟩ ↔
      ¬∃ m p octave b, Found token m p octave b := by
  constructor
  · rintro hn ⟨m, p, octave, b, h⟩
    rw [melodicNote_of_found h] at hn
    split at hn <;> cases hn
  · intro h
    exact melodicNote_of_not_found fun m p octave b hf => h ⟨m, p, octave, b, hf⟩

end

namespace Scanner

def octave? (digits : List Char) (shift : Int) : Option Int :=
  (Word.digits? Word.max31 digits).bind fun written =>
    (Word.checkedSigned Word.max31 (written + shift)).filter fun octave =>
      0 ≤ octave ∧ octave ≤ Spelling.greatestOctave

def pitch? (m : Spelling) : Option (PitchClass × Int) :=
  (PitchClass.spell? m.letter m.accidental).bind fun (p, shift) =>
    (octave? m.octave shift).map fun octave => (p, octave)

def melodicNote (token : List Char) : Except Fault (Except Diagnostic Note) := do
  let text := Text.trim token
  let unmatched := .error (.on .unmatchedToken text)
  match ← scan text with
  | none => return unmatched
  | some m =>
    match pitch? m with
    | none => return unmatched
    | some (p, octave) =>
      match ← Beat.parseWord m.duration with
      | none => return unmatched
      | some b =>
        return if b.isZero then .error (.on .invalidDuration text) else .ok (.melodic p octave b)

section
variable {t : List Char} {m : Spelling}

/-- An octave that is too large for its word is out of range as well. -/
theorem octave?_eq (digits : List Char) {shift : Int} (h : -1 ≤ shift ∧ shift ≤ 1) :
    octave? digits shift =
      if 0 ≤ Number.digitsValue digits + shift ∧
        Number.digitsValue digits + shift ≤ Spelling.greatestOctave then
        some (Number.digitsValue digits + shift)
      else none := by
  have hmax : Word.max31 = 2 ^ 31 - 1 := rfl
  have hgreatest : Spelling.greatestOctave = 10 := rfl
  unfold octave?
  rw [Word.digits?_eq]
  by_cases hd : Number.digitsValue digits ≤ Word.max31
  · rw [Word.checked_of_le hd, Option.bind_some]
    unfold Word.checkedSigned
    by_cases ho : (Number.digitsValue digits : Int) + shift ≤ Word.max31
    · rw [if_pos (by omega), Option.filter_some]
      simp only [decide_eq_true_eq]
    · rw [if_neg (by omega), if_neg (by omega), Option.filter_none]
  · rw [Word.checked_of_lt (by omega), if_neg (by omega), Option.bind_none]

theorem pitch?_eq (h : Spelling.IsLeftmost t m) : pitch? m = m.pitch? := by
  have ha := h.accidental
  unfold pitch? Spelling.pitch?
  cases hn : PitchClass.natural? m.letter with
  | none => rw [PitchClass.spell?_of_none hn, Option.bind_none, Option.bind_none]
  | some n =>
    have hle := PitchClass.natural?_le hn
    rw [PitchClass.spell?_eq hn ha, Option.bind_some, Option.bind_some]
    simp only
    rw [octave?_eq _ (by omega)]
    split <;> rfl

/-- On bytes and words nothing is out of place, nothing outgrows its word, and the result is the
same. -/
theorem melodicNote_eq (token : List Char) :
    melodicNote token = .ok (Token.melodicNote token) := by
  have hon (d : Defect) : Diagnostic.on d (Text.trim token) = ⟨d, Text.trim token⟩ := by
    rw [Diagnostic.on, Text.trim_trim]
  show (scan (Text.trim token) >>= _) = _
  rw [scan_eq]
  simp only [hon]
  cases hm : Spelling.first? (Text.trim token) with
  | none =>
    rw [melodicNote_of_not_found]
    · rfl
    · intro m' p octave b h
      obtain ⟨hm', -⟩ := found_iff.mp h
      cases hm.symm.trans hm'
  | some m =>
    show (match pitch? m with | none => _ | some (p, octave) => _) = _
    rw [pitch?_eq (Spelling.first?_eq_some_iff.mp hm)]
    cases hp : m.pitch? with
    | none =>
      rw [melodicNote_of_not_found]
      · rfl
      · intro m' p octave b h
        obtain ⟨hm', hp', -⟩ := found_iff.mp h
        obtain rfl := Option.some.inj (hm.symm.trans hm')
        cases hp.symm.trans hp'
    | some pitch =>
      obtain ⟨p, octave⟩ := pitch
      show (Beat.parseWord m.duration >>= _) = _
      rw [Beat.parseWord_eq]
      cases hb : Beat.parse? m.duration with
      | none =>
        rw [melodicNote_of_not_found]
        · rfl
        · intro m' p octave b h
          obtain ⟨hm', -, hb'⟩ := found_iff.mp h
          obtain rfl := Option.some.inj (hm.symm.trans hm')
          cases hb.symm.trans hb'
      | some b =>
        rw [melodicNote_of_found (found_iff.mpr ⟨hm, hp, hb⟩)]
        rfl

end

end Scanner

/-- A melodic token is the leftmost note spelled in it, or is refused for what that note lacks. -/
theorem melodicNote_exact (token : List Char) :
    (∀ n, Token.melodicNote token = .ok n ↔ ∃ m p octave b, Found token m p octave b ∧
      1 ≤ b.ticks ∧ n = ⟨.melodic p octave, b, 1.0⟩) ∧
    (Token.melodicNote token = .error ⟨.invalidDuration, Text.trim token⟩ ↔
      ∃ m p octave b, Found token m p octave b ∧ b.ticks = 0) ∧
    (Token.melodicNote token = .error ⟨.unmatchedToken, Text.trim token⟩ ↔
      ¬∃ m p octave b, Found token m p octave b) ∧
    (∀ m m', Spelling.IsLeftmost (Text.trim token) m → Spelling.IsLeftmost (Text.trim token) m' →
      m = m') ∧
    Scanner.melodicNote token = .ok (Token.melodicNote token) :=
  ⟨fun _ => melodicNote_eq_ok_iff, melodicNote_eq_invalid_iff, melodicNote_eq_unmatched_iff,
    fun _ _ h h' => h.unique h', Scanner.melodicNote_eq token⟩

end Notation

end ScoreSynth
