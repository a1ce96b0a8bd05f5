import ScoreSynth.Notation.Reader
import ScoreSynth.Proofs.Notation.Melodic
import ScoreSynth.Proofs.Text.Pieces
import ScoreSynth.Proofs.Text.Trim

/-!
# What a reader lets through

Notes, tracks and scores as reading a text can give them, whatever the text. A name keeps clear of
the separators around it, a note fits the kind of its track and lasts a tick or more, and a chord is
as long as its longest note.
-/

namespace ScoreSynth.Notation

/-! ## Drum codes -/

def isLowerCode (c : Char) : Bool := c.isLower || c.isDigit || c == '_'

theorem isLowerCode_iff {c : Char} : isLowerCode c = true ↔
    (c.isLower = true ∨ c.isDigit = true) ∨ c = '_' := by
  unfold isLowerCode
  rw [Bool.or_eq_true, Bool.or_eq_true, beq_iff_eq]

theorem isCodeChar_iff {c : Char} : Token.isCodeChar c = true ↔
    ((c.isUpper = true ∨ c.isLower = true) ∨ c.isDigit = true) ∨ c = '_' := by
  unfold Token.isCodeChar
  rw [Bool.or_eq_true, Text.isAlphanum_iff, beq_iff_eq]

theorem isLowerCode_toLower {c : Char} (h : Token.isCodeChar c = true) :
    isLowerCode c.toLower = true := by
  rw [isLowerCode_iff]
  by_cases hu : c.isUpper = true
  · exact .inl (.inl (Text.isLower_toLower hu))
  · rw [Text.toLower_of_not_isUpper hu]
    rcases isCodeChar_iff.mp h with ((h | h) | h) | h
    · exact absurd h hu
    · exact .inl (.inl h)
    · exact .inl (.inr h)
    · exact .inr h

theorem toLower_of_isLowerCode {c : Char} (h : isLowerCode c = true) : c.toLower = c := by
  refine Text.toLower_of_not_isUpper fun hu => ?_
  rw [Text.isUpper_iff] at hu
  rcases isLowerCode_iff.mp h with (h | h) | rfl
  · rw [Text.isLower_iff] at h
    omega
  · rw [Text.isDigit_iff] at h
    omega
  · exact absurd hu (by decide)

theorem isCodeChar_of_isLowerCode {c : Char} (h : isLowerCode c = true) :
    Token.isCodeChar c = true := by
  rw [isCodeChar_iff]
  rcases isLowerCode_iff.mp h with (h | h) | h
  · exact .inl (.inl (.inr h))
  · exact .inl (.inr h)
  · exact .inr h

/-! ## Notes, chords, tracks and scores -/

def Fits (drums : Bool) : Pitch → Prop
  | .melodic _ octave => drums = false ∧ 0 ≤ octave ∧ octave ≤ Spelling.greatestOctave
  | .drum code => drums = true ∧ code.toList ≠ [] ∧ ∀ c ∈ code.toList, isLowerCode c = true

structure CompiledNote (drums : Bool) (n : Note) : Prop where
  fits : Fits drums n.pitch
  duration_pos : 0 < n.duration.ticks
  velocity : n.velocity = 1.0

structure CompiledChord (drums : Bool) (c : Chord) : Prop where
  notes : ∀ n ∈ c.notes, CompiledNote drums n
  eq_ofNotes : c = .ofNotes c.notes

structure Nameable (name : List Char) : Prop where
  ne_nil : name ≠ []
  tight : Text.Tight name
  semicolon : ';' ∉ name
  colon : ':' ∉ name
  slashes : Text.Apart '/' '/' name
  not_tempo : Segment.isTempoName name = false

structure CompiledTrack (t : Track) : Prop where
  name : Nameable t.instrument.toList
  chords : ∀ p ∈ t.patterns, ∀ c ∈ p.chords, CompiledChord t.isDrums c

structure Compiled (s : Score) : Prop where
  tempo_pos : 0 < s.tempo
  tempo_le : s.tempo ≤ Number.max32
  tracks : ∀ t ∈ s.tracks, CompiledTrack t

/-! ## Reading gives no other -/

theorem compiled_melodicNote {token : List Char} {n : Note} (h : Token.melodicNote token = .ok n) :
    CompiledNote false n := by
  obtain ⟨m, p, octave, b, hfound, hle, rfl⟩ := melodicNote_eq_ok_iff.mp h
  exact ⟨⟨rfl, hfound.denotes.low, hfound.denotes.high⟩, hle, rfl⟩

theorem compiled_drumNote {token : List Char} {n : Note} (h : Token.drumNote token = .ok n) :
    CompiledNote true n := by
  unfold Token.drumNote at h
  simp only at h
  split at h
  · cases h
  · rename_i hcode
    split at h
    · cases h
    · rename_i hz
      obtain rfl := Except.ok.inj h
      simp only [Bool.or_eq_true, List.isEmpty_iff, Bool.not_eq_true', not_or, Bool.not_eq_false,
        List.all_eq_true] at hcode
      refine ⟨⟨rfl, ?_, ?_⟩, Nat.pos_of_ne_zero (mt Beat.isZero_iff.mpr hz), rfl⟩
      · rw [String.toList_ofList, ne_eq, List.map_eq_nil_iff]
        exact hcode.1
      · rw [String.toList_ofList]
        intro c hc
        obtain ⟨d, hd, rfl⟩ := List.mem_map.mp hc
        exact isLowerCode_toLower (hcode.2 d hd)

theorem compiled_token {drums : Bool} {token : List Char} {n : Note}
    (h : (Token.read drums token).value = some n) : CompiledNote drums n := by
  unfold Token.read at h
  split at h
  · cases h
  · rename_i m hm
    obtain rfl := Option.some.inj h
    cases drums with
    | false => exact compiled_melodicNote hm
    | true => exact compiled_drumNote hm

theorem compiled_chord (drums : Bool) (text : List Char) :
    CompiledChord drums (chord drums text).value := by
  refine ⟨fun n hn => ?_, rfl⟩
  obtain ⟨o, ho, hon⟩ := List.mem_filterMap.mp hn
  obtain ⟨r, hr, rfl⟩ := List.mem_map.mp ho
  obtain ⟨token, -, rfl⟩ := List.mem_map.mp hr
  exact compiled_token hon

theorem compiled_pattern (drums : Bool) (text : List Char) :
    ∀ c ∈ (pattern drums text).value.chords, CompiledChord drums c := by
  intro c hc
  obtain ⟨o, ho, hoc⟩ := List.mem_filterMap.mp hc
  obtain ⟨r, hr, rfl⟩ := List.mem_map.mp ho
  obtain ⟨piece, -, rfl⟩ := List.mem_map.mp hr
  unfold chordPiece at hoc
  split at hoc
  · cases hoc
  · obtain rfl := Option.some.inj hoc
    exact compiled_chord drums piece

theorem compiled_track {name : List Char} (hn : Nameable name) (body : List Char) :
    CompiledTrack (track name body).value := by
  have hname : (track name body).value.instrument.toList = name := String.toList_ofList
  refine ⟨by rwa [hname], fun p hp => ?_⟩
  obtain ⟨r, hr, rfl⟩ := List.mem_map.mp hp
  obtain ⟨text, -, rfl⟩ := List.mem_map.mp hr
  unfold Track.isDrums
  rw [hname]
  exact compiled_pattern _ _

theorem nameable_trim {name : List Char} (hne : ¬(Text.trim name).isEmpty = true)
    (ht : ¬Segment.isTempoName (Text.trim name) = true) (hs : ';' ∉ name) (hc : ':' ∉ name)
    (ha : Text.Apart '/' '/' name) : Nameable (Text.trim name) where
  ne_nil := by simpa using hne
  tight := Text.tight_trim name
  semicolon := fun h => hs ((Text.trim_isInfix name).subset h)
  colon := fun h => hc ((Text.trim_isInfix name).subset h)
  slashes := ha.of_isInfix (Text.trim_isInfix name)
  not_tempo := by simpa using ht

theorem compiled_segment {text : List Char} (hs : ';' ∉ text) (ha : Text.Apart '/' '/' text)
    {t : Track} (h : (Segment.read text).value = .track t) : CompiledTrack t := by
  unfold Segment.read at h
  split at h
  · cases h
  · rename_i name body hcut
    obtain ⟨rfl, hc⟩ := Text.cut_eq_some hcut
    unfold Segment.ofNamed at h
    split at h
    · cases h
    · rename_i hne
      split at h
      · split at h <;> cases h
      · rename_i ht
        split at h
        · cases h
        · obtain rfl := Segment.track.inj h
          refine compiled_track (nameable_trim hne ht ?_ hc ?_) _
          · exact fun hm => hs (List.mem_append_left _ hm)
          · exact ha.of_isInfix (List.prefix_append _ _).isInfix

theorem tempo_segment_le {text : List Char} {bpm : Nat}
    (h : (Segment.read text).value = .tempo bpm) : 0 < bpm ∧ bpm ≤ Number.max32 := by
  unfold Segment.read at h
  split at h
  · cases h
  · unfold Segment.ofNamed at h
    split at h
    · cases h
    · split at h
      · split at h
        · rename_i n hn
          obtain rfl := Segment.tempo.inj h
          obtain ⟨hu, hpos⟩ := Option.filter_eq_some_iff.mp hn
          unfold Number.unsigned? at hu
          obtain ⟨-, hle⟩ := Option.filter_eq_some_iff.mp hu
          exact ⟨by simpa using hpos, by simpa using hle⟩
        · cases h
      · split at h <;> cases h

theorem apart_withoutComments (source : List Char) :
    Text.Apart '/' '/' (withoutComments source) := by
  refine Text.apart_intercalate (by decide) (by decide) fun l hl => ?_
  obtain ⟨line, -, rfl⟩ := List.mem_map.mp hl
  exact Text.apart_beforeSlashes line

theorem compiled_readChars (source : List Char) : Compiled (readChars source).value := by
  have hseg : ∀ segment ∈ (segments source).value, ∃ text, ';' ∉ text ∧
      Text.Apart '/' '/' text ∧ (Segment.read text).value = segment := by
    intro segment h
    obtain ⟨r, hr, rfl⟩ := List.mem_map.mp h
    obtain ⟨text, ht, rfl⟩ := List.mem_map.mp hr
    have hmem := (List.mem_filter.mp ht).1
    exact ⟨text, Text.not_mem_of_mem_splitOn hmem,
      (apart_withoutComments source).of_isInfix (Text.infix_of_mem_splitOn hmem), rfl⟩
  have htempo : ∀ bpm ∈ (segments source).value.filterMap Segment.tempo?,
      0 < bpm ∧ bpm ≤ Number.max32 := by
    intro bpm h
    obtain ⟨segment, hmem, hs⟩ := List.mem_filterMap.mp h
    obtain ⟨text, -, -, rfl⟩ := hseg segment hmem
    cases hv : (Segment.read text).value with
    | tempo n =>
      rw [hv] at hs
      obtain rfl := Option.some.inj hs
      exact tempo_segment_le hv
    | track t => rw [hv] at hs; cases hs
    | nothing => rw [hv] at hs; cases hs
  refine ⟨tempo_scoreOf_pos _, ?_, fun t ht => ?_⟩
  · show max (((segments source).value.filterMap Segment.tempo?).getLast?.getD 120) 1 ≤ _
    cases hl : ((segments source).value.filterMap Segment.tempo?).getLast? with
    | none => decide
    | some bpm =>
      have := htempo bpm (List.mem_of_getLast? hl)
      rw [Option.getD_some]
      omega
  · obtain ⟨segment, hmem, hs⟩ := List.mem_filterMap.mp ht
    obtain ⟨text, hsep, ha, rfl⟩ := hseg segment hmem
    cases hv : (Segment.read text).value with
    | tempo n => rw [hv] at hs; cases hs
    | track u =>
      rw [hv] at hs
      obtain rfl := Option.some.inj hs
      exact compiled_segment hsep ha hv
    | nothing => rw [hv] at hs; cases hs

theorem compiled_compile (source : String) : Compiled (compile source) :=
  compiled_readChars source.toList

end ScoreSynth.Notation
