import ScoreSynth.Proofs.Notation.Segments

/-!
# Every piece is accounted for

A segment is kept as a track, gives a tempo or is reported, and a token of a kept track becomes a
note or is reported: nothing gets lost on the way and nothing is told twice. The reports come in the
order in which the pieces stand in the source.
-/

namespace ScoreSynth.Notation

/-! ## The pieces of a source -/

def keptTrack? (text : List Char) : Option (List Char × List Char) :=
  (Text.cut ':' text).bind fun p =>
    if Text.trim p.1 = [] ∨ Segment.isTempoName (Text.trim p.1) = true ∨ Text.trim p.2 = [] then none
    else some (Text.trim p.1, Text.trim p.2)

def bodyTokens (body : List Char) : List (List Char) :=
  ((body.splitOn '|').filter fun pattern => !pattern.all Text.isBlank).flatMap fun pattern =>
    ((pattern.splitOn ',').filter fun chord => !chord.all Text.isBlank).flatMap fun chord =>
      chord.splitOn '+'

def segmentTokens (text : List Char) : List (List Char) :=
  match keptTrack? text with
  | some (_, body) => bodyTokens body
  | none => []

/-- What is dropped of a segment: tokens of a kept track, or the whole segment. -/
def rejectedPieces (text : List Char) : List (List Char) :=
  match keptTrack? text with
  | some (name, body) =>
    (bodyTokens body).filter fun token => (refused (isDrumInstrument name) token).isSome
  | none => if (tempoGiven? text).isSome then [] else [text]

def segmentDefects : List Defect := [.missingColon, .emptyInstrument, .emptyBody, .invalidTempo]

def tokenDefects : List Defect := [.unmatchedToken, .invalidDuration]

theorem bodyTokens_eq (body : List Char) : bodyTokens body =
    (nonBlank (body.splitOn '|')).flatMap fun pattern =>
      (nonBlank (pattern.splitOn ',')).flatMap fun chord => chord.splitOn '+' := rfl

/-! ## Tokens -/

section
variable {drums : Bool} {token : List Char} {d : Diagnostic}

theorem note_eq_error (h : Token.note drums token = .error d) :
    d.defect ∈ tokenDefects ∧ d.fragment = Text.trim token := by
  have hunmatched : Defect.unmatchedToken ∈ tokenDefects := by decide
  have hduration : Defect.invalidDuration ∈ tokenDefects := by decide
  cases drums with
  | false =>
    simp only [Token.note, Token.melodicNote, Bool.false_eq_true, if_false] at h
    split at h
    · cases h
      exact ⟨hunmatched, Text.trim_trim token⟩
    · split at h
      · cases h
        exact ⟨hduration, Text.trim_trim token⟩
      · cases h
  | true =>
    simp only [Token.note, Token.drumNote, if_true] at h
    split at h
    · cases h
      exact ⟨hunmatched, Text.trim_trim token⟩
    · split at h
      · cases h
        exact ⟨hduration, Text.trim_trim token⟩
      · cases h

theorem refused_eq_some (h : refused drums token = some d) :
    d.defect ∈ tokenDefects ∧ d.fragment = Text.trim token := by
  unfold refused at h
  split at h
  · cases h
  · rename_i hd
    cases h
    exact note_eq_error hd

/-- A token is a note or is reported, and not both. -/
theorem accepted_or_refused (drums : Bool) (token : List Char) :
    (accepted drums token).toList.length + (refused drums token).toList.length = 1 := by
  unfold accepted refused
  cases Token.note drums token <;> rfl

variable (drums) (tokens : List (List Char))

theorem length_tokens : tokens.length =
    (tokens.filterMap (accepted drums)).length + (tokens.filterMap (refused drums)).length := by
  induction tokens with
  | nil => rfl
  | cons t ts ih =>
    have h := accepted_or_refused drums t
    simp only [List.filterMap_eq_flatMap_toList, List.flatMap_cons, List.length_append,
      List.length_cons] at ih ⊢
    omega

theorem mem_tokenDefects : ∀ d ∈ tokens.filterMap (refused drums), d.defect ∈ tokenDefects := by
  intro d hd
  obtain ⟨token, -, h⟩ := List.mem_filterMap.mp hd
  exact (refused_eq_some h).1

theorem fragments_refused : (tokens.filterMap (refused drums)).map (·.fragment) =
    (tokens.filter fun t => (refused drums t).isSome).map Text.trim := by
  induction tokens with
  | nil => rfl
  | cons t ts ih =>
    cases h : refused drums t with
    | none => simpa [h] using ih
    | some d => simpa [h, (refused_eq_some h).2] using ih

end

/-! ## Tracks -/

theorem diagnostics_body (name body : List Char) : (track name body).diagnostics =
    (bodyTokens body).filterMap (refused (isDrumInstrument name)) := by
  simp only [diagnostics_track, diagnostics_pattern, diagnostics_chord, bodyTokens_eq,
    List.filterMap_flatMap]

theorem notes_body (name body : List Char) :
    (track name body).value.chords.flatMap (·.notes) =
      (bodyTokens body).filterMap (accepted (isDrumInstrument name)) := by
  simp only [Track.chords, patterns_track, bodyTokens_eq, List.flatMap_map, List.flatMap_assoc,
    List.filterMap_flatMap, chords_pattern, value_chord, Chord.ofNotes]

/-! ## Segments -/

/-- A segment is read in one of three ways. -/
theorem read_cases (text : List Char) :
    (∃ name body, keptTrack? text = some (name, body) ∧ tempoGiven? text = none ∧
      Segment.read text = ⟨.track (track name body).value, (track name body).remarks⟩) ∨
    (∃ bpm, keptTrack? text = none ∧ tempoGiven? text = some bpm ∧
      Segment.read text = ⟨.tempo bpm, []⟩) ∨
    (∃ defect ∈ segmentDefects, keptTrack? text = none ∧ tempoGiven? text = none ∧
      Segment.read text = Segment.dropped defect text) := by
  unfold Segment.read keptTrack? tempoGiven?
  cases Text.cut ':' text with
  | none => exact .inr (.inr ⟨.missingColon, by decide, rfl, rfl, rfl⟩)
  | some p =>
    obtain ⟨before, behind⟩ := p
    simp only [Option.bind_some, Segment.ofNamed]
    by_cases hname : Text.trim before = []
    · refine .inr (.inr ⟨.emptyInstrument, by decide, ?_⟩)
      simp [hname, Segment.isTempoName]
    · by_cases ht : Segment.isTempoName (Text.trim before) = true
      · simp only [hname, ht, List.isEmpty_iff, if_true, if_false, true_or, or_true]
        cases hu : (Number.unsigned? Number.max32 (Text.trim behind)).filter (0 < ·) with
        | none => exact .inr (.inr ⟨.invalidTempo, by decide, trivial, rfl, rfl⟩)
        | some bpm => exact .inr (.inl ⟨bpm, trivial, rfl, rfl⟩)
      · by_cases hbody : Text.trim behind = []
        · refine .inr (.inr ⟨.emptyBody, by decide, ?_⟩)
          simp [hname, ht, hbody]
        · refine .inl ⟨Text.trim before, Text.trim behind, ?_⟩
          simp [hname, ht, hbody]

theorem diagnostics_dropped (defect : Defect) (text : List Char) :
    (Segment.dropped defect text).diagnostics = [.on defect text] := rfl

def segmentNotes (s : Segment) : List Note :=
  s.track?.toList.flatMap fun t => t.chords.flatMap (·.notes)

theorem segment_counts_once (text : List Char) :
    (Segment.read text).value.track?.toList.length + (tempoGiven? text).toList.length +
      (Segment.read text).diagnostics.countP (·.defect ∈ segmentDefects) = 1 := by
  rcases read_cases text with ⟨name, body, -, ht, h⟩ | ⟨bpm, -, ht, h⟩ | ⟨defect, hd, -, ht, h⟩
  · have hnone : (track name body).diagnostics.countP (·.defect ∈ segmentDefects) = 0 := by
      rw [List.countP_eq_zero, diagnostics_body]
      intro d hd
      have hmem := mem_tokenDefects _ _ d hd
      have hapart : ∀ e ∈ tokenDefects, e ∉ segmentDefects := by decide
      simpa using hapart d.defect hmem
    rw [h, ht]
    show 1 + 0 + (track name body).diagnostics.countP (·.defect ∈ segmentDefects) = 1
    rw [hnone]
  · rw [h, ht]
    rfl
  · rw [h, ht, diagnostics_dropped]
    simpa [Segment.dropped, Segment.track?, Diagnostic.on] using hd

theorem segment_tokens_count_once (text : List Char) : (segmentTokens text).length =
    (segmentNotes (Segment.read text).value).length +
      (Segment.read text).diagnostics.countP (·.defect ∈ tokenDefects) := by
  unfold segmentTokens
  rcases read_cases text with ⟨name, body, hk, -, h⟩ | ⟨bpm, hk, -, h⟩ | ⟨defect, hd, hk, -, h⟩
  · have hall : (track name body).diagnostics.countP (·.defect ∈ tokenDefects) =
        (track name body).diagnostics.length := by
      rw [List.countP_eq_length, diagnostics_body]
      intro d hd
      simpa using mem_tokenDefects _ _ d hd
    have hnotes : segmentNotes (.track (track name body).value) =
        (bodyTokens body).filterMap (accepted (isDrumInstrument name)) := by
      rw [← notes_body]
      simp [segmentNotes, Segment.track?]
    rw [h, hk, hnotes]
    show (bodyTokens body).length = _ + (track name body).diagnostics.countP _
    rw [hall, diagnostics_body]
    exact length_tokens _ _
  · rw [h, hk]
    rfl
  · have hapart : ∀ e ∈ segmentDefects, e ∉ tokenDefects := by decide
    rw [h, hk, diagnostics_dropped]
    simpa [Segment.dropped, segmentNotes, Segment.track?, Diagnostic.on] using hapart defect hd

theorem segment_fragments (text : List Char) :
    (Segment.read text).diagnostics.map (·.fragment) = (rejectedPieces text).map Text.trim := by
  unfold rejectedPieces
  rcases read_cases text with ⟨name, body, hk, -, h⟩ | ⟨bpm, hk, ht, h⟩ | ⟨defect, -, hk, ht, h⟩
  · rw [h, hk]
    show (track name body).diagnostics.map _ = _
    rw [diagnostics_body]
    exact fragments_refused _ _
  · rw [h, hk, ht]
    rfl
  · rw [h, hk, ht, diagnostics_dropped]
    rfl

theorem kept_name (text : List Char) : (Segment.read text).value.track?.map (·.instrument) =
    (keptTrack? text).map fun p => String.ofList p.1 := by
  rcases read_cases text with ⟨name, body, hk, -, h⟩ | ⟨bpm, hk, -, h⟩ | ⟨defect, -, hk, -, h⟩ <;>
    rw [h, hk] <;> rfl

theorem successive_bodyTokens (body : List Char) : Text.Successive (bodyTokens body) body := by
  refine Text.Successive.flatMap ?_ fun pattern _ => Text.Successive.flatMap ?_ fun chord _ => ?_
  · exact (Text.successive_splitOn '|' body).sublist List.filter_sublist
  · exact (Text.successive_splitOn ',' pattern).sublist List.filter_sublist
  · exact Text.successive_splitOn '+' chord

theorem successive_rejectedPieces (text : List Char) :
    Text.Successive (rejectedPieces text) text := by
  unfold rejectedPieces
  split
  · rename_i name body hk
    obtain ⟨⟨before, behind⟩, hcut, hb⟩ := Option.bind_eq_some_iff.mp hk
    obtain ⟨rfl, -⟩ := Text.cut_eq_some hcut
    have hbody : body <:+: behind := by
      split at hb
      · cases hb
      · cases hb
        exact Text.trim_isInfix behind
    have hsuffix : behind <:+: before ++ ':' :: behind := ⟨before ++ [':'], [], by simp⟩
    refine ((successive_bodyTokens body).sublist List.filter_sublist).of_isInfix ?_
    exact hbody.trans hsuffix
  · split
    · exact .nil text
    · exact .singleton text

/-! ## Sources -/

theorem tracks_source (source : List Char) : (readChars source).value.tracks =
    (sourceSegments source).filterMap fun text => (Segment.read text).value.track? := by
  show (segments source).value.filterMap Segment.track? = _
  rw [segments_eq, Reading.all, List.map_map, List.filterMap_map]
  rfl

theorem notes_source (source : List Char) : (readChars source).value.notes =
    (sourceSegments source).flatMap fun text => segmentNotes (Segment.read text).value := by
  unfold Score.notes
  rw [tracks_source, List.filterMap_eq_flatMap_toList, List.flatMap_assoc, List.flatMap_assoc]
  rfl

/--
In what a source without its comments is cut into, each segment is a track, a tempo or a report, and
each token of a track is a note or a report. The reports hold the trimmed texts of what was dropped,
in the order of the source.
-/
theorem every_piece_kept_or_reported (source : String) :
    (sourceSegments source.toList).length =
        (compile source).tracks.length +
          ((sourceSegments source.toList).filterMap tempoGiven?).length +
          (read source).diagnostics.countP (·.defect ∈ segmentDefects) ∧
      (compile source).tracks.map (·.instrument) =
        ((sourceSegments source.toList).filterMap keptTrack?).map (fun p => String.ofList p.1) ∧
      ((sourceSegments source.toList).flatMap segmentTokens).length =
        (compile source).noteCount +
          (read source).diagnostics.countP (·.defect ∈ tokenDefects) ∧
      (read source).diagnostics.map (·.fragment) =
        ((sourceSegments source.toList).flatMap rejectedPieces).map Text.trim ∧
      Text.Successive ((sourceSegments source.toList).flatMap rejectedPieces)
        (withoutComments source.toList) := by
  unfold compile read Score.noteCount
  rw [diagnostics_source, tracks_source, notes_source]
  refine ⟨?_, ?_, ?_, ?_, ?_⟩
  · induction sourceSegments source.toList with
    | nil => rfl
    | cons text texts ih =>
      have h := segment_counts_once text
      simp only [List.filterMap_eq_flatMap_toList, List.flatMap_cons, List.length_append,
        List.length_cons, List.countP_append] at ih h ⊢
      omega
  · rw [List.map_filterMap, List.map_filterMap]
    exact List.filterMap_congr fun text _ => kept_name text
  · induction sourceSegments source.toList with
    | nil => rfl
    | cons text texts ih =>
      have h := segment_tokens_count_once text
      simp only [List.flatMap_cons, List.length_append, List.countP_append] at ih h ⊢
      omega
  · rw [List.map_flatMap, List.map_flatMap]
    exact List.flatMap_congr fun text _ => segment_fragments text
  · refine Text.Successive.flatMap ?_ fun text _ => successive_rejectedPieces text
    exact (Text.successive_splitOn ';' _).sublist List.filter_sublist

end ScoreSynth.Notation
