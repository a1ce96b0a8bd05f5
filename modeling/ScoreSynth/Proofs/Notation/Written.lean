import ScoreSynth.Notation.Writer
import ScoreSynth.Proofs.Beat.Written
import ScoreSynth.Proofs.Notation.Compiled
import ScoreSynth.Proofs.Score.Pruned

/-!
# What a writer puts down

A score is written as its pruned score: segments with an end mark after each, and in the body of a
track nothing but the characters of notes and the separators between them. So a reader finds no
comment in it and splits it where the writer joined it.
-/

namespace ScoreSynth.Notation

/-! ## The shape of the text -/

def writtenPattern (p : Pattern) : List Char := [','].intercalate (p.chords.map writeChord)

def writtenBody (t : Track) : List Char := ['|'].intercalate (t.patterns.map writtenPattern)

def tempoSegment (tempo : Nat) : List Char := "tempo:".toList ++ Number.decimalText tempo

def trackSegment (t : Track) : List Char := '\n' :: (t.instrument.toList ++ ':' :: writtenBody t)

def writtenSegments (s : Score) : List (List Char) :=
  tempoSegment s.tempo :: s.tracks.map trackSegment

theorem writePattern_eq (p : Pattern) : writePattern p =
    if p.pruned.chords.isEmpty then none else some (writtenPattern p.pruned) := by
  unfold writePattern writtenPattern Pattern.pruned
  simp only [List.isEmpty_map]

theorem filterMap_writePattern (ps : List Pattern) : ps.filterMap writePattern =
    ((ps.map Pattern.pruned).filter fun p => !p.chords.isEmpty).map writtenPattern := by
  induction ps with
  | nil => rfl
  | cons p ps ih =>
    rw [List.filterMap_cons, writePattern_eq, List.map_cons, List.filter_cons, ih]
    cases p.pruned.chords.isEmpty <;> rfl

theorem writeTrack_eq (t : Track) : writeTrack t =
    if t.pruned.patterns.isEmpty then none else some (trackSegment t.pruned ++ [';']) := by
  unfold writeTrack
  simp only [filterMap_writePattern, List.isEmpty_map]
  split
  · rename_i h
    exact (if_pos h).symm
  · rename_i h
    rw [if_neg (show ¬t.pruned.patterns.isEmpty = true from h)]
    simp [trackSegment, writtenBody, Track.pruned]

theorem filterMap_writeTrack (ts : List Track) : ts.filterMap writeTrack =
    ((ts.map Track.pruned).filter fun t => !t.patterns.isEmpty).map
      fun t => trackSegment t ++ [';'] := by
  induction ts with
  | nil => rfl
  | cons t ts ih =>
    rw [List.filterMap_cons, writeTrack_eq, List.map_cons, List.filter_cons, ih]
    cases t.pruned.patterns.isEmpty <;> rfl

/-- A score is written as the segments of its pruned score, each with its end mark. -/
theorem writeChars_eq (s : Score) :
    writeChars s = [';'].intercalate (writtenSegments s.pruned ++ [[]]) := by
  have hw : writeChars s = ((writtenSegments s.pruned).map fun p => p ++ [';']).flatten := by
    unfold writeChars writeTempo writtenSegments tempoSegment
    rw [filterMap_writeTrack, List.map_cons, List.flatten_cons, List.map_map]
    simp only [List.append_assoc]
    rfl
  rw [hw, Text.flatten_concat]

/-! ## Changes that the text does not show -/

theorem writeChord_map {f : Note → Note} {notes : List Note}
    (h : ∀ n ∈ notes, writeNote (f n) = writeNote n) (d d' : Beat) :
    writeChord ⟨notes.map f, d⟩ = writeChord ⟨notes, d'⟩ := by
  have hnotes : (notes.map f).map writeNote = notes.map writeNote := by
    rw [List.map_map]
    exact List.map_congr_left h
  unfold writeChord
  rw [hnotes]

theorem writePattern_map {f : Chord → Chord} {p : Pattern}
    (h : ∀ c ∈ p.chords, (f c).isEmpty = c.isEmpty ∧ writeChord (f c) = writeChord c) :
    writePattern ⟨p.chords.map f⟩ = writePattern p := by
  have hempty : p.chords.filter (fun c => !(f c).isEmpty) =
      p.chords.filter fun c => !c.isEmpty :=
    List.filter_congr fun c hc => by rw [(h c hc).1]
  have hchords : ((p.chords.map f).filter fun c => !c.isEmpty).map writeChord =
      (p.chords.filter fun c => !c.isEmpty).map writeChord := by
    rw [List.filter_map, List.map_map]
    simp only [Function.comp_def]
    rw [hempty]
    exact List.map_congr_left fun c hc => (h c (List.mem_of_mem_filter hc)).2
  unfold writePattern
  simp only
  rw [hchords]

theorem writeTrack_map {f : Pattern → Pattern} {t : Track}
    (h : ∀ p ∈ t.patterns, writePattern (f p) = writePattern p) :
    writeTrack { t with patterns := t.patterns.map f } = writeTrack t := by
  have hpatterns : (t.patterns.map f).filterMap writePattern =
      t.patterns.filterMap writePattern := by
    rw [List.filterMap_map]
    exact List.filterMap_congr h
  unfold writeTrack
  rw [hpatterns]

theorem writeChars_map {f : Track → Track} {s : Score}
    (h : ∀ t ∈ s.tracks, writeTrack (f t) = writeTrack t) :
    writeChars { s with tracks := s.tracks.map f } = writeChars s := by
  have htracks : (s.tracks.map f).filterMap writeTrack = s.tracks.filterMap writeTrack := by
    rw [List.filterMap_map]
    exact List.filterMap_congr h
  unfold writeChars
  rw [htracks]

theorem writeChars_pruned (s : Score) : writeChars s.pruned = writeChars s := by
  rw [writeChars_eq, writeChars_eq, Score.pruned_pruned]

/-! ## Characters of a note -/

def isNoteChar (c : Char) : Bool := Token.isCodeChar c || c == '#' || c == '.'

theorem isNoteChar_iff {c : Char} : isNoteChar c = true ↔
    (Token.isCodeChar c = true ∨ c = '#') ∨ c = '.' := by
  unfold isNoteChar
  rw [Bool.or_eq_true, Bool.or_eq_true, beq_iff_eq, beq_iff_eq]

theorem isNoteChar_of_isDigit {c : Char} (h : c.isDigit = true) : isNoteChar c = true :=
  isNoteChar_iff.mpr (.inl (.inl (isCodeChar_iff.mpr (.inl (.inr h)))))

theorem isBlank_of_isNoteChar {c : Char} (h : isNoteChar c = true) : Text.isBlank c = false := by
  -- the numbers of letters and digits lie between two blanks
  have hrange : 0x30 ≤ c.toNat ∧ c.toNat ≤ 0x7A → Text.isBlank c = false := by
    intro h
    simp only [Text.isBlank, Bool.or_eq_false_iff, Bool.and_eq_false_iff, decide_eq_false_iff_not,
      beq_eq_false_iff_ne]
    omega
  rcases isNoteChar_iff.mp h with (h | rfl) | rfl
  · rcases isCodeChar_iff.mp h with ((h | h) | h) | rfl
    · rw [Text.isUpper_iff] at h
      exact hrange (by omega)
    · rw [Text.isLower_iff] at h
      exact hrange (by omega)
    · rw [Text.isDigit_iff] at h
      exact hrange (by omega)
    · rfl
  · rfl
  · rfl

theorem isNoteChar_of_mem_write {b : Beat} {c : Char} (hc : c ∈ b.write) : isNoteChar c = true := by
  obtain ⟨whole, fraction, hw, hb⟩ := b.write_eq_numeral
  rw [hb, Number.numeral] at hc
  split at hc
  · exact isNoteChar_of_isDigit (hw.whole_digits c hc)
  · rcases List.mem_append.mp hc with hc | hc
    · exact isNoteChar_of_isDigit (hw.whole_digits c hc)
    · rcases List.mem_cons.mp hc with rfl | hc
      · rfl
      · exact isNoteChar_of_isDigit (hw.fraction_digits c hc)

theorem isNoteChar_of_mem_name {p : PitchClass} {c : Char} (hc : c ∈ p.name.toList) :
    isNoteChar c = true := by
  have h : p.name.toList.all isNoteChar = true := by
    cases p <;> decide
  exact List.all_eq_true.mp h c hc

section
variable {drums : Bool} {n : Note} {c : Char}

theorem isNoteChar_of_mem_writePitch {p : Pitch} (hf : Fits drums p) (hc : c ∈ writePitch p) :
    isNoteChar c = true := by
  cases p with
  | melodic p octave =>
    obtain ⟨-, h0, -⟩ := hf
    rcases List.mem_append.mp hc with hc | hc
    · exact isNoteChar_of_mem_name hc
    · rw [Number.Layout.writeInt, if_neg (not_lt.mpr h0)] at hc
      exact isNoteChar_of_isDigit (Number.isDigit_of_mem_decimalText hc)
  | drum code =>
    obtain ⟨-, -, hcode⟩ := hf
    exact isNoteChar_iff.mpr (.inl (.inl (isCodeChar_of_isLowerCode (hcode c hc))))

theorem isNoteChar_of_mem_writeNote (hf : Fits drums n.pitch) (hc : c ∈ writeNote n) :
    isNoteChar c = true := by
  rcases List.mem_append.mp hc with hc | hc
  · exact isNoteChar_of_mem_writePitch hf hc
  · rcases List.mem_cons.mp hc with rfl | hc
    · rfl
    · exact isNoteChar_of_mem_write hc

theorem writeNote_ne_nil (n : Note) : writeNote n ≠ [] :=
  List.append_ne_nil_of_right_ne_nil _ (List.cons_ne_nil _ _)

/-! ## Characters of a body -/

variable {ch : Chord} {p : Pattern} {t : Track}

theorem mem_writeChord (hf : ∀ n ∈ ch.notes, Fits drums n.pitch) (hc : c ∈ writeChord ch) :
    c = '+' ∨ isNoteChar c = true := by
  refine (Text.mem_intercalate hc).imp_right ?_
  rintro ⟨l, hl, hcl⟩
  obtain ⟨n, hn, rfl⟩ := List.mem_map.mp hl
  exact isNoteChar_of_mem_writeNote (hf n hn) hcl

theorem mem_writtenPattern (hf : ∀ ch ∈ p.chords, ∀ n ∈ ch.notes, Fits drums n.pitch)
    (hc : c ∈ writtenPattern p) : c = ',' ∨ c = '+' ∨ isNoteChar c = true := by
  refine (Text.mem_intercalate hc).imp_right ?_
  rintro ⟨l, hl, hcl⟩
  obtain ⟨ch, hch, rfl⟩ := List.mem_map.mp hl
  exact mem_writeChord (hf ch hch) hcl

theorem mem_writtenBody
    (hf : ∀ p ∈ t.patterns, ∀ ch ∈ p.chords, ∀ n ∈ ch.notes, Fits drums n.pitch)
    (hc : c ∈ writtenBody t) : c = '|' ∨ c = ',' ∨ c = '+' ∨ isNoteChar c = true := by
  refine (Text.mem_intercalate hc).imp_right ?_
  rintro ⟨l, hl, hcl⟩
  obtain ⟨p, hp, rfl⟩ := List.mem_map.mp hl
  exact mem_writtenPattern (hf p hp) hcl

end

end ScoreSynth.Notation
