import ScoreSynth.Proofs.Notation.DrumTokens
import ScoreSynth.Proofs.Notation.Melodic
import ScoreSynth.Proofs.Notation.Written

/-!
# Reading a written note

A written note is a token that reads back as the note: the leftmost spelling in it begins at its
front, a drum code ends at its first point, and what follows is the duration. The text of a duration
may stand for another length than the one it was written for, and loudness is not written.
-/

namespace ScoreSynth

/-- The note that the text of a note stands for, given the length that each duration reads as. -/
def Note.reread (read : Beat → Beat) (n : Note) : Note := ⟨n.pitch, read n.duration, 1.0⟩

namespace Notation

/-! ## The spelling of a note -/

section
variable {whole fraction : List Char}

theorem head_point {f : List Char} : ∀ c ∈ ('.' :: f).head?, c.isDigit = false := by
  rintro c hc
  obtain rfl := Option.some.inj hc
  rfl

theorem length_numeral (h : Beat.Written whole fraction) :
    Spelling.Length (Number.numeral whole fraction) (Number.numeral whole fraction) := by
  unfold Number.numeral
  by_cases hf : fraction = []
  · rw [if_pos (by simpa using hf)]
    apply Spelling.Length.whole
    · exact ⟨(List.append_nil whole).symm, h.ne_nil, h.whole_digits, by simp⟩
    · intro q hq
      cases hq
  · rw [if_neg (by simpa using hf)]
    apply Spelling.Length.pointed
    · exact ⟨rfl, h.ne_nil, h.whole_digits, head_point⟩
    · exact ⟨(List.append_nil fraction).symm, hf, h.fraction_digits, by simp⟩

/-- A letter, a sharp or none, an octave and a numeral are a note at the front of a text. -/
theorem at?_spelled {letter : Char} {octave : List Char} (sharp : Bool)
    (hl : Spelling.isLetter letter = true) (hne : octave ≠ [])
    (ho : ∀ c ∈ octave, c.isDigit = true) (h : Beat.Written whole fraction) :
    Spelling.at? (letter :: ((if sharp then ['#'] else []) ++
      (octave ++ '.' :: Number.numeral whole fraction))) =
      some ⟨letter, if sharp then 1 else 0, octave, Number.numeral whole fraction⟩ := by
  rw [Spelling.at?_eq_some_iff]
  refine ⟨_, _, _, rfl, Spelling.isNoteLetter_iff.mpr hl, ?_, ⟨rfl, hne, ho, head_point⟩,
    length_numeral h⟩
  cases sharp with
  | false => exact .natural
  | true => exact .sharp

end

/-- The name of a class is a letter, with a sharp or without, that spells the class. -/
theorem name_spells (p : PitchClass) : ∃ (letter : Char) (sharp : Bool),
    p.name.toList = letter :: (if sharp then ['#'] else []) ∧ Spelling.isLetter letter = true ∧
      PitchClass.spell? letter (if sharp then 1 else 0) = some (p, 0) := by
  cases p with
  | c => exact ⟨'C', false, by decide, by decide, by decide⟩
  | cSharp => exact ⟨'C', true, by decide, by decide, by decide⟩
  | d => exact ⟨'D', false, by decide, by decide, by decide⟩
  | dSharp => exact ⟨'D', true, by decide, by decide, by decide⟩
  | e => exact ⟨'E', false, by decide, by decide, by decide⟩
  | f => exact ⟨'F', false, by decide, by decide, by decide⟩
  | fSharp => exact ⟨'F', true, by decide, by decide, by decide⟩
  | g => exact ⟨'G', false, by decide, by decide, by decide⟩
  | gSharp => exact ⟨'G', true, by decide, by decide, by decide⟩
  | a => exact ⟨'A', false, by decide, by decide, by decide⟩
  | aSharp => exact ⟨'A', true, by decide, by decide, by decide⟩
  | b => exact ⟨'B', false, by decide, by decide, by decide⟩

/-- The pitch of a written note is the leftmost one spelled in it. -/
theorem first?_write {p : PitchClass} {octave : Int} {b : Beat} (h0 : 0 ≤ octave)
    (h10 : octave ≤ Spelling.greatestOctave) : ∃ m,
    Spelling.first? (writePitch (.melodic p octave) ++ '.' :: b.write) = some m ∧
      m.duration = b.write ∧ m.pitch? = some (p, octave) := by
  obtain ⟨whole, fraction, hw, hb⟩ := b.write_eq_numeral
  obtain ⟨letter, sharp, hname, hl, hspell⟩ := name_spells p
  have hat := at?_spelled sharp hl (Number.decimalText_ne_nil octave.natAbs)
    (fun _ hc => Number.isDigit_of_mem_decimalText hc) hw
  have hpitch : writePitch (.melodic p octave) ++ '.' :: b.write =
      letter :: ((if sharp then ['#'] else []) ++
        (Number.decimalText octave.natAbs ++ '.' :: Number.numeral whole fraction)) := by
    have : Number.Layout.writeInt octave = Number.decimalText octave.natAbs := if_neg (by omega)
    rw [writePitch, hname, this, hb]
    simp
  have hv : (Number.digitsValue (Number.decimalText octave.natAbs) : Int) + 0 = octave := by
    rw [Number.digitsValue_decimalText]
    omega
  refine ⟨⟨letter, if sharp then 1 else 0, Number.decimalText octave.natAbs,
    Number.numeral whole fraction⟩, ?_, hb.symm, ?_⟩
  · rw [hpitch, Spelling.first?, hat]
    rfl
  · unfold Spelling.pitch?
    simp only [hspell, Option.bind_some, hv]
    rw [if_pos ⟨h0, h10⟩]

/-! ## Tokens -/

section
variable {read : Beat → Beat} {drums : Bool} {n : Note}

structure Readable (read : Beat → Beat) (drums : Bool) (n : Note) : Prop where
  fits : Fits drums n.pitch
  parse : Beat.parse? n.duration.write = some (read n.duration)
  pos : 0 < (read n.duration).ticks

theorem trim_writeNote (hf : Fits drums n.pitch) : Text.trim (writeNote n) = writeNote n :=
  (Text.tight_of_forall fun _ hc =>
    isBlank_of_isNoteChar (isNoteChar_of_mem_writeNote hf hc)).trim_eq

theorem melodicNote_write (h : Readable read false n) :
    Token.melodicNote (writeNote n) = .ok (n.reread read) := by
  obtain ⟨pitch, duration, velocity⟩ := n
  obtain ⟨hf, hp, hz⟩ := h
  cases pitch with
  | drum code => exact absurd hf.1 (by decide)
  | melodic p octave =>
    obtain ⟨m, hm, hd, hpitch⟩ := first?_write (p := p) (b := duration) hf.2.1 hf.2.2
    rw [← hd] at hp
    have htrim : Text.trim (writeNote ⟨.melodic p octave, duration, velocity⟩) = _ :=
      trim_writeNote hf
    rw [melodicNote_of_found (found_iff.mpr ⟨htrim.symm ▸ hm, hpitch, hp⟩)]
    exact if_neg (mt Beat.isZero_iff.mp hz.ne')

theorem drumParts_write {code : String} (hf : Fits true (.drum code)) (b : Beat) :
    Token.drumParts (code.toList ++ '.' :: b.write) = (code.toList, some b.write) := by
  have hdot : '.' ∉ code.toList := fun h => absurd (hf.2.2 _ h) (by decide)
  unfold Token.drumParts
  rw [Text.cut_append_cons hdot]

theorem drumNote_write (h : Readable read true n) :
    Token.drumNote (writeNote n) = .ok (n.reread read) := by
  obtain ⟨pitch, duration, velocity⟩ := n
  obtain ⟨hf, hp, hz⟩ := h
  cases pitch with
  | melodic p octave => exact absurd hf.1 (by decide)
  | drum code =>
    have hcode : ∀ c ∈ code.toList, Token.isCodeChar c = true :=
      fun c hc => isCodeChar_of_isLowerCode (hf.2.2 c hc)
    have hlower : code.toList.map Char.toLower = code.toList :=
      Text.map_eq_self fun c hc => toLower_of_isLowerCode (hf.2.2 c hc)
    rw [drumNote_pointed hf.2.1 hcode (trim_writeNote hf), hp, Option.getD_some,
      if_neg (mt Beat.isZero_iff.mp hz.ne'), Note.drum, hlower, String.ofList_toList]
    rfl

/-- A written note reads back, without a remark. -/
theorem read_writeNote (h : Readable read drums n) :
    Token.read drums (writeNote n) = ⟨some (n.reread read), []⟩ := by
  have hok : Token.note drums (writeNote n) = .ok (n.reread read) := by
    cases drums with
    | false => exact melodicNote_write h
    | true => exact drumNote_write h
  have hlacks : (drums && Token.lacksDuration (writeNote n)) = false := by
    cases drums with
    | false => rfl
    | true =>
      obtain ⟨pitch, duration, velocity⟩ := n
      cases pitch with
      | melodic p octave => exact absurd h.fits.1 (by decide)
      | drum code =>
        unfold Token.lacksDuration
        rw [trim_writeNote h.fits, writeNote, writePitch, drumParts_write h.fits]
        simp [h.parse]
  unfold Token.read
  rw [hok]
  simp only [hlacks]
  rfl

end

end Notation

end ScoreSynth
