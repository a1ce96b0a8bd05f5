import ScoreSynth.Proofs.Notation.Written
import ScoreSynth.Prose.Generated
import ScoreSynth.Proofs.Notation.Leftmost

/-!
# Runs that look like a note

The test for notes in generated text finds a capital letter, a sign or none, an octave, a point and
a digit side by side, wherever they stand. No separator and no blank is among them, so such a run
stays whole when a text is read, and each written note begins with one.
-/

namespace ScoreSynth.Prose

open Notation
open Notation.Spelling (Sign accidentalOf digitsOf afterDigits)

/-- As much of a note as the test looks at. -/
inductive NoteShape : List Char → Prop where
  | mk {letter digit : Char} {sign octave : List Char} {a : Int} (hl : isUpperLetter letter = true)
      (hs : Sign sign a) (hne : octave ≠ []) (ho : ∀ c ∈ octave, c.isDigit = true)
      (hd : digit.isDigit = true) : NoteShape (letter :: (sign ++ (octave ++ ['.', digit])))

/-! ## The test -/

theorem startsWithNote_eq (letter : Char) (s : List Char) : startsWithNote (letter :: s) =
    match afterDigits (accidentalOf s).2 with
    | '.' :: d :: _ =>
      isUpperLetter letter && (accidentalOf s).2.head?.any Char.isDigit && d.isDigit
    | _ => false := by
  unfold startsWithNote
  fun_cases accidentalOf s with
  | case1 r => rfl
  | case2 r => rfl
  | case3 hsharp hflat =>
    simp only
    rfl

theorem startsWithNote_cons (letter : Char) (s : List Char) : startsWithNote (letter :: s) = true ↔
    isUpperLetter letter = true ∧ digitsOf (accidentalOf s).2 ≠ [] ∧
      ∃ d q, afterDigits (accidentalOf s).2 = '.' :: d :: q ∧ d.isDigit = true := by
  have hhead : ∀ r : List Char, r.head?.any Char.isDigit = true ↔ digitsOf r ≠ [] := by
    intro r
    rw [ne_eq, Spelling.digitsOf_eq_nil_iff]
    cases r <;> simp
  rw [startsWithNote_eq]
  generalize (accidentalOf s).2 = r
  split
  · rename_i d q hq
    rw [hq, Bool.and_eq_true, Bool.and_eq_true, hhead, and_assoc]
    simp
  · rename_i hnot
    simp only [Bool.false_eq_true, false_iff]
    rintro ⟨-, -, d, q, hq, -⟩
    exact hnot d q hq

theorem startsWithNote_iff {t : List Char} :
    startsWithNote t = true ↔ ∃ w, NoteShape w ∧ w <+: t := by
  constructor
  · intro h
    cases t with
    | nil => cases h
    | cons letter s =>
      obtain ⟨hl, hne, d, q, hq, hd⟩ := (startsWithNote_cons letter s).mp h
      obtain ⟨sign, hs, ha⟩ := Spelling.sign_accidentalOf s
      have hr := Spelling.digits_append (accidentalOf s).2
      rw [hq] at hr
      rw [← hr] at hs
      refine ⟨_, .mk hl ha hne (fun c hc => List.mem_takeWhile_imp hc) hd, q, ?_⟩
      refine Eq.trans ?_ (congrArg (letter :: ·) hs.symm)
      simp
  · rintro ⟨-, ⟨hl, hs, hne, ho, hd⟩, q, rfl⟩
    rename_i letter digit sign octave a
    have hrun : Spelling.Run (octave ++ '.' :: digit :: q) octave ('.' :: digit :: q) :=
      ⟨rfl, hne, ho, by simp⟩
    obtain ⟨hdigits, hafter, -⟩ := Spelling.run_iff.mp hrun
    have hsign : accidentalOf (sign ++ (octave ++ '.' :: digit :: q)) =
        (a, octave ++ '.' :: digit :: q) :=
      Spelling.accidentalOf_append hs (hdigits ▸ hne)
    have ht : letter :: (sign ++ (octave ++ ['.', digit])) ++ q =
        letter :: (sign ++ (octave ++ '.' :: digit :: q)) := by simp
    rw [ht, startsWithNote_cons, hsign]
    exact ⟨hl, hdigits ▸ hne, digit, q, hafter.symm, hd⟩

theorem hasNote_iff {t : List Char} : hasNote t = true ↔ ∃ w, NoteShape w ∧ w <:+: t := by
  induction t with
  | nil =>
    constructor
    · intro h
      cases h
    · rintro ⟨-, ⟨-, -, -, -, -⟩, h⟩
      cases List.infix_nil.mp h
  | cons c t ih =>
    rw [hasNote, Bool.or_eq_true, startsWithNote_iff, ih]
    constructor
    · rintro (⟨w, hw, h⟩ | ⟨w, hw, h⟩)
      · exact ⟨w, hw, h.isInfix⟩
      · exact ⟨w, hw, List.infix_cons h⟩
    · rintro ⟨w, hw, h⟩
      rcases List.infix_cons_iff.mp h with h | h
      · exact .inl ⟨w, hw, h⟩
      · exact .inr ⟨w, hw, h⟩

example : hasNote "xEb12.0".toList = true ∧ hasNote "c4.1".toList = false := by decide

/-! ## Characters of a run -/

theorem isUpperLetter_iff {c : Char} :
    isUpperLetter c = true ↔ 65 ≤ c.toNat ∧ c.toNat ≤ 71 := by
  unfold isUpperLetter
  rw [Bool.and_eq_true, decide_eq_true_iff, decide_eq_true_iff]
  rfl

theorem isUpper_of_isUpperLetter {c : Char} (h : isUpperLetter c = true) : c.isUpper = true := by
  obtain ⟨hlow, hhigh⟩ := isUpperLetter_iff.mp h
  rw [Text.isUpper_iff]
  omega

namespace NoteShape

variable {w : List Char}

theorem ne_nil (h : NoteShape w) : w ≠ [] := by
  cases h
  exact List.cons_ne_nil _ _

theorem isNoteChar (h : NoteShape w) {c : Char} (hc : c ∈ w) : isNoteChar c = true := by
  obtain ⟨hl, hs, -, ho, hd⟩ := h
  rcases List.mem_cons.mp hc with rfl | hc
  · exact isNoteChar_iff.mpr
      (.inl (.inl (isCodeChar_iff.mpr (.inl (.inl (.inl (isUpper_of_isUpperLetter hl)))))))
  · rcases List.mem_append.mp hc with hc | hc
    · cases hs with
      | natural => cases hc
      | sharp => exact List.mem_singleton.mp hc ▸ rfl
      | flat => exact List.mem_singleton.mp hc ▸ rfl
    · rcases List.mem_append.mp hc with hc | hc
      · exact isNoteChar_of_isDigit (ho c hc)
      · rcases List.mem_pair.mp hc with rfl | rfl
        · rfl
        · exact isNoteChar_of_isDigit hd

theorem not_mem (h : NoteShape w) {c : Char} (hc : Notation.isNoteChar c = false) : c ∉ w := by
  intro hm
  rw [h.isNoteChar hm] at hc
  cases hc

theorem tight (h : NoteShape w) : Text.Tight w :=
  Text.tight_of_forall fun _ hc => isBlank_of_isNoteChar (h.isNoteChar hc)

end NoteShape

/-! ## Written notes -/

theorem name_shape (p : PitchClass) : ∃ (letter : Char) (sign : List Char) (a : Int),
    p.name.toList = letter :: sign ∧ isUpperLetter letter = true ∧ Sign sign a := by
  cases p with
  | c => exact ⟨'C', [], 0, by decide, by decide, .natural⟩
  | cSharp => exact ⟨'C', ['#'], 1, by decide, by decide, .sharp⟩
  | d => exact ⟨'D', [], 0, by decide, by decide, .natural⟩
  | dSharp => exact ⟨'D', ['#'], 1, by decide, by decide, .sharp⟩
  | e => exact ⟨'E', [], 0, by decide, by decide, .natural⟩
  | f => exact ⟨'F', [], 0, by decide, by decide, .natural⟩
  | fSharp => exact ⟨'F', ['#'], 1, by decide, by decide, .sharp⟩
  | g => exact ⟨'G', [], 0, by decide, by decide, .natural⟩
  | gSharp => exact ⟨'G', ['#'], 1, by decide, by decide, .sharp⟩
  | a => exact ⟨'A', [], 0, by decide, by decide, .natural⟩
  | aSharp => exact ⟨'A', ['#'], 1, by decide, by decide, .sharp⟩
  | b => exact ⟨'B', [], 0, by decide, by decide, .natural⟩

theorem write_eq_cons (b : Beat) : ∃ d s, b.write = d :: s ∧ d.isDigit = true := by
  obtain ⟨whole, fraction, hw, hb⟩ := b.write_eq_numeral
  obtain ⟨d, whole, rfl⟩ := List.exists_cons_of_ne_nil hw.ne_nil
  have hd := hw.whole_digits d List.mem_cons_self
  rw [hb, Number.numeral]
  split
  · exact ⟨d, whole, rfl, hd⟩
  · exact ⟨d, _, rfl, hd⟩

theorem shape_writeNote {n : Note} {p : PitchClass} {octave : Int}
    (hp : n.pitch = .melodic p octave) (h0 : 0 ≤ octave) : ∃ w, NoteShape w ∧ w <+: writeNote n := by
  obtain ⟨letter, sign, a, hname, hl, hs⟩ := name_shape p
  obtain ⟨d, s, hwrite, hd⟩ := write_eq_cons n.duration
  have hint : Number.Layout.writeInt octave = Number.decimalText octave.natAbs := if_neg (by omega)
  refine ⟨_, .mk hl hs (Number.decimalText_ne_nil octave.natAbs)
    (fun _ hc => Number.isDigit_of_mem_decimalText hc) hd, s, ?_⟩
  rw [writeNote, hp, writePitch, hname, hint, hwrite]
  simp

end ScoreSynth.Prose
