import ScoreSynth.Proofs.Notation.Scanner
import ScoreSynth.Proofs.Prose.Playable
import ScoreSynth.Proofs.Text.Cuts

/-!
# Two scanners for one note

Generated text is tested for a note by a scan over its bytes, and the note of a token is found by
another. The first takes capital letters only and counts digits from a position that it first brings
within the text; the second takes letters of either case, goes by where the digits end and cuts out
what it finds. At every position they look for the same, so what the test sees in a text without
comments is found again in some piece of it, however the text is cut up at its separators.
-/

namespace ScoreSynth

open Text (bytes byteAt StandsAt CutsInto)

namespace Notation

/-! ## The pieces of a source -/

def separators : List Char := [';', ':', '|', ',', '+']

/-- What a segment is cut into: its name and its tokens, or as far as it is read. -/
def segmentPieces (text : List Char) : List (List Char) :=
  match keptTrack? text, Text.cut ':' text with
  | some (name, body), _ => name :: (bodyTokens body).map Text.trim
  | none, some (before, behind) => [Text.trim before, Text.trim behind]
  | none, none => [text]

def sourcePieces (source : List Char) : List (List Char) :=
  (sourceSegments source).flatMap segmentPieces

theorem cutsInto_nonBlank_splitOn {sep : Char} (hsep : sep ∈ separators) (s : List Char) :
    CutsInto separators [s] (nonBlank (s.splitOn sep)) :=
  (Text.Parts.split s hsep).cutsInto.trans (Text.cutsInto_filter_not_allBlank _)

theorem cutsInto_bodyTokens (body : List Char) : CutsInto separators [body] (bodyTokens body) := by
  refine (cutsInto_nonBlank_splitOn (by decide) body).trans (Text.cutsInto_flatMap fun p _ => ?_)
  refine (cutsInto_nonBlank_splitOn (by decide) p).trans (Text.cutsInto_flatMap fun c _ => ?_)
  exact (Text.Parts.split c (by decide)).cutsInto

theorem cutsInto_map_trim (ps : List (List Char)) :
    CutsInto separators ps (ps.map Text.trim) := by
  rw [List.map_eq_flatMap]
  exact Text.cutsInto_flatMap fun p _ => (Text.Parts.trim p).cutsInto

theorem cutsInto_segmentPieces (text : List Char) :
    CutsInto separators [text] (segmentPieces text) := by
  have htrimmed : ∀ p ∈ Text.cut ':' text,
      CutsInto separators [text] [Text.trim p.1, Text.trim p.2] := fun p hp =>
    (Text.Parts.halve (by decide) hp).cutsInto.trans (cutsInto_map_trim [p.1, p.2])
  unfold segmentPieces
  split
  · rename_i name body hk
    obtain ⟨p, hcut, hp⟩ := Option.bind_eq_some_iff.mp hk
    split at hp
    · cases hp
    · cases hp
      have htokens := (cutsInto_bodyTokens (Text.trim p.2)).trans (cutsInto_map_trim _)
      have hboth := htokens.among [Text.trim p.1] []
      simp only [List.append_nil] at hboth
      exact (htrimmed p hcut).trans hboth
  · exact htrimmed _ ‹_›
  · exact Text.cutsInto_refl _

theorem cutsInto_sourcePieces (source : List Char) :
    CutsInto separators [withoutComments source] (sourcePieces source) :=
  (cutsInto_nonBlank_splitOn (by decide) _).trans
    (Text.cutsInto_flatMap fun text _ => cutsInto_segmentPieces text)

example : sourcePieces "a: C4.1 + x | D4.1; b".toList =
    ["a", "C4.1", "x", "D4.1", " b"].map String.toList := by decide

end Notation

namespace Prose

open Notation
open Notation.Scanner (isDigitByte isLetterByte holds digitsEnd accidentalAt scanAt)

/-! ## The test on bytes -/

def isCapitalByte (b : UInt8) : Bool := 65 ≤ b && b ≤ 71

def bytesFrom (bs : List UInt8) (n : Nat) : Except Fault (List UInt8) :=
  if n ≤ bs.length then .ok (bs.drop n) else .error .outOfRange

def digitCount (bs : List UInt8) (n : Nat) : Except Fault Nat := do
  let rest ← bytesFrom bs (min n bs.length)
  return (rest.takeWhile isDigitByte).length

def isNoteAt (bs : List UInt8) (n : Nat) : Except Fault Bool := do
  let letter ← byteAt bs n
  if !isCapitalByte letter then return false
  let first := if holds bs (n + 1) '#' || holds bs (n + 1) 'b' then n + 2 else n + 1
  let octave ← digitCount bs first
  if octave == 0 || !holds bs (first + octave) '.' then return false
  let digits ← digitCount bs (first + octave + 1)
  return decide (0 < digits)

def anyNote (s : List Char) : Except Fault Bool :=
  (List.range (bytes s).length).anyM (isNoteAt (bytes s))

/-! ## One look ahead -/

def followsAt (bs : List UInt8) (n : Nat) : Bool :=
  let first := (accidentalAt bs n).2
  let last := digitsEnd bs first
  last != first && holds bs last '.' && digitsEnd bs (last + 1) != last + 1

section
variable {bs : List UInt8} {s t : List Char} {n : Nat} {b : UInt8}

theorem digitCount_eq (bs : List UInt8) (n : Nat) :
    digitCount bs n = .ok ((bs.drop n).takeWhile isDigitByte).length := by
  have hdrop : bs.drop (min n bs.length) = bs.drop n := by
    by_cases h : n ≤ bs.length
    · rw [Nat.min_eq_left h]
    · rw [Nat.min_eq_right (by omega), List.drop_length, List.drop_eq_nil_of_le (by omega)]
  unfold digitCount bytesFrom
  rw [if_pos (Nat.min_le_right _ _), hdrop]
  rfl

theorem accidentalAt_snd (bs : List UInt8) (n : Nat) : (accidentalAt bs n).2 =
    if holds bs n '#' || holds bs n 'b' then n + 1 else n := by
  unfold accidentalAt
  cases holds bs n '#' <;> cases holds bs n 'b' <;> rfl

theorem isNoteAt_eq (hb : byteAt bs n = .ok b) :
    isNoteAt bs n = .ok (isCapitalByte b && followsAt bs (n + 1)) := by
  unfold isNoteAt followsAt digitsEnd
  rw [hb, accidentalAt_snd]
  show (if !isCapitalByte b then _ else _) = _
  generalize (if holds bs (n + 1) '#' || holds bs (n + 1) 'b' then n + 1 + 1 else n + 1) = first
  cases isCapitalByte b with
  | false => rfl
  | true =>
    simp only [digitCount_eq, bind, Except.bind]
    generalize ((bs.drop first).takeWhile isDigitByte).length = octave
    generalize ((bs.drop (first + octave + 1)).takeWhile isDigitByte).length = digits
    -- digits are there if and only if they end further on than they begin
    have hoctave : (first + octave != first) = !(octave == 0) := by
      rw [Bool.eq_iff_iff]
      simp
    have hdigits : (first + octave + 1 + digits != first + octave + 1) = decide (0 < digits) := by
      rw [Bool.eq_iff_iff]
      simp [Nat.pos_iff_ne_zero]
    rw [hoctave, hdigits]
    cases octave == 0 <;> cases holds bs (first + octave) '.' <;> rfl

theorem isSome_of_scanAt {r : Option Spelling} (hb : byteAt (bytes s) n = .ok b)
    (h : scanAt s n = .ok r) : r.isSome = (isLetterByte b && followsAt (bytes s) (n + 1)) := by
  unfold scanAt at h
  unfold followsAt
  rw [hb] at h
  generalize accidentalAt (bytes s) (n + 1) = found at *
  obtain ⟨accidental, first⟩ := found
  simp only [bind, Except.bind, bne] at h ⊢
  generalize holds (bytes s) (digitsEnd (bytes s) first) '.' = point at h ⊢
  generalize (digitsEnd (bytes s) (digitsEnd (bytes s) first + 1) ==
    digitsEnd (bytes s) first + 1) = noDigits at h ⊢
  generalize (digitsEnd (bytes s) first == first) = noOctave at h ⊢
  generalize isLetterByte b = letter at h ⊢
  -- whatever stops the look ahead stops the scan before anything is cut out
  cases letter with
  | false =>
    cases h
    rfl
  | true =>
    cases noOctave with
    | true =>
      cases h
      rfl
    | false =>
      cases point with
      | false =>
        cases h
        rfl
      | true =>
        cases noDigits with
        | true =>
          cases h
          rfl
        | false =>
          simp only [Bool.not_true, Bool.or_self, Bool.false_eq_true, if_false] at h
          split at h
          · cases h
          · split at h
            · cases h
            · cases h
              rfl

/-! ## Capital letters -/

theorem isCapitalByte_iff : isCapitalByte b = true ↔ 65 ≤ b.toNat ∧ b.toNat ≤ 71 := by
  unfold isCapitalByte
  simp [UInt8.le_iff_toNat_le]

theorem isLetterByte_of_isCapitalByte (h : isCapitalByte b = true) : isLetterByte b = true :=
  Scanner.isLetterByte_iff.mpr (.inl (isCapitalByte_iff.mp h))

theorem narrow_capitals : Text.Narrow isCapitalByte isUpperLetter where
  low c h := by
    rw [Bool.eq_iff_iff, isCapitalByte_iff, isUpperLetter_iff, Text.toNat_toUInt8 h]
  high_byte b h := by
    rw [Bool.eq_false_iff, Ne, isCapitalByte_iff]
    omega
  high_char c h := by
    rw [Bool.eq_false_iff, Ne, isUpperLetter_iff]
    omega

theorem isLetter_of_isUpperLetter {c : Char} (h : isUpperLetter c = true) :
    Spelling.isLetter c = true :=
  Spelling.isLetter_iff.mpr (.inl (isUpperLetter_iff.mp h))

/-- The test sees a note where one is spelled with a capital letter. -/
theorem startsWithNote_cons_iff (c : Char) (r : List Char) : startsWithNote (c :: r) = true ↔
    isUpperLetter c = true ∧ (Spelling.at? (c :: r)).isSome = true := by
  rw [startsWithNote_cons, Spelling.at?_cons, Option.isSome_ite]
  refine and_congr_right fun hc => ?_
  rw [isLetter_of_isUpperLetter hc]
  generalize Spelling.afterDigits (Spelling.accidentalOf r).2 = rest
  constructor
  · rintro ⟨hoctave, d, q, rfl, hd⟩
    refine ⟨rfl, hoctave, rfl, fun hnil => ?_⟩
    rw [Spelling.digitsOf_eq_nil_iff.mp hnil d rfl] at hd
    cases hd
  · rintro ⟨-, hoctave, hpoint, hdigits⟩
    obtain ⟨u, rfl⟩ := List.head?_eq_some_iff.mp hpoint
    cases u with
    | nil => exact absurd rfl hdigits
    | cons d q =>
      refine ⟨hoctave, d, q, rfl, ?_⟩
      by_contra hd
      exact hdigits (List.takeWhile_cons_of_neg hd)

theorem isSome_first?_of_hasNote (h : hasNote t = true) : ∃ m, Spelling.first? t = some m := by
  rw [← Option.isSome_iff_exists]
  induction t with
  | nil => cases h
  | cons c t ih =>
    rw [hasNote, Bool.or_eq_true, startsWithNote_cons_iff] at h
    rw [Spelling.first?, Option.isSome_or, Bool.or_eq_true]
    exact h.imp And.right ih

theorem hasNote_iff_standsAt :
    hasNote s = true ↔ ∃ n c r, StandsAt s n (c :: r) ∧ startsWithNote (c :: r) = true := by
  rw [hasNote_iff]
  constructor
  · rintro ⟨w, hw, h⟩
    obtain ⟨q, hwq, p, rfl⟩ := List.infix_iff_prefix_suffix.mp h
    have hq := startsWithNote_iff.mpr ⟨w, hw, hwq⟩
    cases q with
    | nil => cases hq
    | cons c r => exact ⟨_, c, r, ⟨p, rfl, rfl⟩, hq⟩
  · rintro ⟨-, c, r, ⟨p, rfl, -⟩, hq⟩
    obtain ⟨w, hw, hwq⟩ := startsWithNote_iff.mp hq
    exact ⟨w, hw, hwq.isInfix.trans (List.suffix_append p _).isInfix⟩

theorem hasNote_iff_scanAt : hasNote s = true ↔ ∃ n b m, byteAt (bytes s) n = .ok b ∧
    isCapitalByte b = true ∧ scanAt s n = .ok (some m) := by
  rw [hasNote_iff_standsAt]
  constructor
  · rintro ⟨n, c, r, hat, hstarts⟩
    obtain ⟨hc, hsome⟩ := (startsWithNote_cons_iff c r).mp hstarts
    obtain ⟨m, hm⟩ := Option.isSome_iff_exists.mp hsome
    have hlow := narrow_capitals.lt hc
    refine ⟨n, _, m, hat.byteAt hlow, by rw [narrow_capitals.low c hlow, hc], ?_⟩
    rw [Scanner.scanAt_of_isLetter hat (isLetter_of_isUpperLetter hc), hm]
  · rintro ⟨n, b, m, hb, hcapital, hm⟩
    obtain ⟨hn, -⟩ := Text.byteAt_eq_ok_iff.mp hb
    rcases Scanner.scanAt_of_lt hn with ⟨c, r, hat, hc, h⟩ | h
    · have hsome : Spelling.at? (c :: r) = some m := Except.ok.inj (h.symm.trans hm)
      have hlow := Scanner.narrow_letters.lt hc
      have hbyte : c.toUInt8 = b := Except.ok.inj ((hat.byteAt hlow).symm.trans hb)
      rw [← hbyte, narrow_capitals.low c hlow] at hcapital
      exact ⟨n, c, r, hat, (startsWithNote_cons_iff c r).mpr ⟨hcapital, by rw [hsome]; rfl⟩⟩
    · rw [h] at hm
      cases hm

/-! ## All positions -/

theorem isNoteAt_of_lt (hn : n < (bytes s).length) : ∃ b r, byteAt (bytes s) n = .ok b ∧
    scanAt s n = .ok r ∧ isNoteAt (bytes s) n = .ok (isCapitalByte b && r.isSome) := by
  have hb := Text.byteAt_eq_ok_iff.mpr ⟨hn, rfl⟩
  obtain ⟨r, hr⟩ : ∃ r, scanAt s n = .ok r := by
    rcases Scanner.scanAt_of_lt hn with ⟨c, r, -, -, h⟩ | h
    · exact ⟨_, h⟩
    · exact ⟨_, h⟩
  refine ⟨_, r, hb, hr, ?_⟩
  rw [isNoteAt_eq hb, isSome_of_scanAt hb hr]
  -- a capital letter is a letter
  cases hcapital : isCapitalByte (bytes s)[n] with
  | false => rfl
  | true => rw [isLetterByte_of_isCapitalByte hcapital, Bool.true_and, Bool.true_and]

/-- Where no test fails, some test succeeds or none does. -/
theorem anyM_eq_ok {α : Type} {f : α → Except Fault Bool} {xs : List α} {a : Bool}
    (hdefined : ∀ x ∈ xs, ∃ v, f x = .ok v) (ha : a = true ↔ ∃ x ∈ xs, f x = .ok true) :
    xs.anyM f = .ok a := by
  induction xs with
  | nil =>
    have hfalse : a = false := by simpa using ha
    rw [hfalse]
    rfl
  | cons x xs ih =>
    obtain ⟨v, hv⟩ := hdefined x List.mem_cons_self
    rw [List.anyM, hv]
    cases v with
    | true =>
      rw [ha.mpr ⟨x, List.mem_cons_self, hv⟩]
      rfl
    | false =>
      refine ih (fun y hy => hdefined y (List.mem_cons_of_mem x hy)) ?_
      rw [ha, List.exists_mem_cons_iff, hv]
      simp

theorem anyNote_eq (s : List Char) : anyNote s = .ok (hasNote s) := by
  refine anyM_eq_ok (fun n hn => ?_) ?_
  · obtain ⟨b, r, -, -, h⟩ := isNoteAt_of_lt (List.mem_range.mp hn)
    exact ⟨_, h⟩
  · rw [hasNote_iff_scanAt]
    constructor
    · rintro ⟨n, b, m, hb, hcapital, hm⟩
      obtain ⟨hn, -⟩ := Text.byteAt_eq_ok_iff.mp hb
      obtain ⟨b', r, hb', hr, h⟩ := isNoteAt_of_lt hn
      obtain rfl : b' = b := Except.ok.inj (hb'.symm.trans hb)
      obtain rfl : r = some m := Except.ok.inj (hr.symm.trans hm)
      exact ⟨n, List.mem_range.mpr hn, by rw [h, hcapital]; rfl⟩
    · rintro ⟨n, hn, h⟩
      obtain ⟨b, r, hb, hr, heq⟩ := isNoteAt_of_lt (List.mem_range.mp hn)
      have hboth : (isCapitalByte b && r.isSome) = true := Except.ok.inj (heq.symm.trans h)
      rw [Bool.and_eq_true] at hboth
      obtain ⟨m, rfl⟩ := Option.isSome_iff_exists.mp hboth.2
      exact ⟨n, b, m, hb, hboth.1, hr⟩

end

/-! ## Pieces -/

section
variable {w s : List Char}

theorem NoteShape.uncut (h : NoteShape w) : Text.Uncut separators w where
  ne_nil := h.ne_nil
  tight := h.tight
  not_mem sep hsep := by
    have hall : (separators.all fun c => !Notation.isNoteChar c) = true := by decide
    have hnot := List.all_eq_true.mp hall sep hsep
    rw [Bool.not_eq_true'] at hnot
    exact h.not_mem hnot

/-- However a text is cut up, a note that the test sees in it is found in some piece. -/
theorem exists_scan_of_hasNote {ps : List (List Char)} (h : hasNote s = true)
    (hcut : CutsInto separators [s] ps) : ∃ p ∈ ps, ∃ m, Scanner.scan p = .ok (some m) := by
  obtain ⟨w, hw, hws⟩ := hasNote_iff.mp h
  obtain ⟨p, hp, hwp⟩ := hw.uncut.exists_cutsInto hcut ⟨s, List.mem_cons_self, hws⟩
  obtain ⟨m, hm⟩ := isSome_first?_of_hasNote (hasNote_iff.mpr ⟨w, hw, hwp⟩)
  exact ⟨p, hp, m, by rw [Scanner.scan_eq, hm]⟩

theorem hasNote_withoutComments (hslash : ¬['/', '/'] <:+: s) (h : hasNote s = true) :
    hasNote (withoutComments s) = true := by
  obtain ⟨w, hw, hws⟩ := hasNote_iff.mp h
  exact hasNote_iff.mpr ⟨w, hw, infix_withoutComments hw.ne_nil (hw.not_mem rfl) (hw.not_mem rfl)
    (Text.apart_iff.mpr hslash) hws⟩

end

/--
Both scanners give a result on every text: the first that of the test on characters, the second the
leftmost note. At each byte both are defined, and the first sees a note if and only if the byte is a
capital letter and the second finds one. What the first sees in a text without `//` the second finds
in some piece of it, however it is cut up at separators before or after its comments are taken out,
and the reader cuts it up so.
-/
theorem scanners_agree (s : List Char) :
    (anyNote s = .ok (hasNote s) ∧ Scanner.scan s = .ok (Spelling.first? s)) ∧
    (∀ n < (bytes s).length, ∃ b r, byteAt (bytes s) n = .ok b ∧ scanAt s n = .ok r ∧
      isNoteAt (bytes s) n = .ok (isCapitalByte b && r.isSome)) ∧
    (anyNote s = .ok true ↔ ∃ n b m, byteAt (bytes s) n = .ok b ∧
      'A'.toNat ≤ b.toNat ∧ b.toNat ≤ 'G'.toNat ∧ scanAt s n = .ok (some m)) ∧
    (anyNote s = .ok true → ¬['/', '/'] <:+: s → ∀ t ∈ [s, withoutComments s], ∀ ps,
      CutsInto separators [t] ps → ∃ p ∈ ps, ∃ m, Scanner.scan p = .ok (some m)) ∧
    CutsInto separators [withoutComments s] (sourcePieces s) := by
  have hany : anyNote s = .ok true ↔ hasNote s = true := by
    rw [anyNote_eq, Except.ok.injEq]
  refine ⟨⟨anyNote_eq s, Scanner.scan_eq s⟩, fun n => isNoteAt_of_lt, ?_, ?_,
    cutsInto_sourcePieces s⟩
  · rw [hany, hasNote_iff_scanAt]
    simp only [isCapitalByte_iff, and_assoc]
    rfl
  · intro h hslash t ht ps hcut
    have hnote := hany.mp h
    rcases List.mem_pair.mp ht with rfl | rfl
    · exact exists_scan_of_hasNote hnote hcut
    · exact exists_scan_of_hasNote (hasNote_withoutComments hslash hnote) hcut

example : anyNote "é;Cb4.0".toList = .ok true ∧ anyNote "c4.1".toList = .ok false := by decide

end Prose

end ScoreSynth
