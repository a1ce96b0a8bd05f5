import ScoreSynth.Proofs.Notation.Comments
import ScoreSynth.Proofs.Notation.Readings
import ScoreSynth.Proofs.Text.Trim

/-!
# Segments of a source

What a source without its comments is cut into at semicolons. Each segment is read on its own, so
two sources put one behind the other read as the one and then the other.
-/

namespace ScoreSynth.Notation

def sourceSegments (source : List Char) : List (List Char) :=
  ((withoutComments source).splitOn ';').filter fun text => !text.all Text.isBlank

/-- The tempo that a segment gives: its name is `tempo` and its body a positive number. -/
def tempoGiven? (text : List Char) : Option Nat :=
  (Text.cut ':' text).bind fun p =>
    if Segment.isTempoName (Text.trim p.1) then
      (Number.unsigned? Number.max32 (Text.trim p.2)).filter (0 < ·)
    else none

theorem sourceSegments_eq (source : List Char) :
    sourceSegments source = nonBlank ((withoutComments source).splitOn ';') := rfl

theorem segments_eq (source : List Char) :
    segments source = .all ((sourceSegments source).map Segment.read) := rfl

theorem diagnostics_source (source : List Char) : (readChars source).diagnostics =
    (sourceSegments source).flatMap fun text => (Segment.read text).diagnostics := by
  show (segments source).diagnostics = _
  rw [segments_eq, Reading.diagnostics_all, List.flatMap_map]

theorem tempo?_ofNamed (text name body : List Char) :
    (Segment.ofNamed text name body).value.tempo? =
      if Segment.isTempoName name then
        (Number.unsigned? Number.max32 body).filter (0 < ·)
      else none := by
  unfold Segment.ofNamed
  cases name with
  | nil => rfl
  | cons c name =>
    rw [if_neg (by simp)]
    by_cases ht : Segment.isTempoName (c :: name) = true
    · rw [if_pos ht, if_pos ht]
      cases (Number.unsigned? Number.max32 body).filter (0 < ·) <;> rfl
    · rw [if_neg ht, if_neg ht]
      split <;> rfl

theorem tempo?_read (text : List Char) : (Segment.read text).value.tempo? = tempoGiven? text := by
  unfold Segment.read tempoGiven?
  cases Text.cut ':' text with
  | none => rfl
  | some p => exact tempo?_ofNamed text _ _

theorem tempos_segments (source : List Char) :
    (segments source).value.filterMap Segment.tempo? =
      (sourceSegments source).filterMap tempoGiven? := by
  have hf : (fun text => (Segment.read text).value.tempo?) = tempoGiven? := funext tempo?_read
  rw [segments_eq, Reading.all, List.map_map, List.filterMap_map, ← hf]
  rfl

/-! ## Blanks behind a segment -/

theorem dropped_append_of_blank (defect : Defect) (text : List Char) {b : List Char}
    (h : Text.allBlank b = true) :
    Segment.dropped defect (text ++ b) = Segment.dropped defect text := by
  simp [Segment.dropped, Diagnostic.on, Text.trim_append_of_blank _ h]

theorem read_append_of_blank (text : List Char) {b : List Char} (h : Text.allBlank b = true) :
    Segment.read (text ++ b) = Segment.read text := by
  have hcolon : ':' ∉ b := Text.not_mem_of_allBlank h (by decide)
  unfold Segment.read
  rw [Text.cut_append_of_not_mem text hcolon]
  cases Text.cut ':' text with
  | none => exact dropped_append_of_blank _ _ h
  | some p =>
    simp only [Option.map_some, Text.trim_append_of_blank _ h, Segment.ofNamed,
      dropped_append_of_blank _ _ h]

theorem readings_append_of_blank (text : List Char) {b : List Char} (h : Text.allBlank b = true) :
    (nonBlank ((text ++ b).splitOn ';')).map Segment.read =
      (nonBlank (text.splitOn ';')).map Segment.read := by
  obtain ⟨ps, p, hp⟩ := Text.splitOn_append_of_not_mem ';' text
  have hb := hp b (Text.not_mem_of_allBlank h (by decide))
  have h0 := hp [] List.not_mem_nil
  rw [List.append_nil, List.append_nil] at h0
  rw [hb, h0]
  unfold nonBlank
  rw [List.filter_append, List.filter_append, List.map_append, List.map_append]
  congr 1
  have hblank : Text.allBlank (p ++ b) = Text.allBlank p := by
    rw [Text.allBlank_append, h, Bool.and_true]
  by_cases hpb : Text.allBlank p = true
  · simp [hblank, hpb]
  · simp [hblank, hpb, read_append_of_blank p h]

/-! ## Two sources -/

theorem readings_joined (a b : List Char) :
    (sourceSegments (a ++ '\n' :: ';' :: b)).map Segment.read =
      (sourceSegments a).map Segment.read ++ (sourceSegments b).map Segment.read := by
  obtain ⟨p, x, y, hx, hy, ha, hj⟩ := stripped_append_segment false a b
  rw [← (withoutComments_eq_stripped a).1] at ha
  rw [← (withoutComments_eq_stripped _).1, ← (withoutComments_eq_stripped b).1] at hj
  rw [sourceSegments_eq, sourceSegments_eq, sourceSegments_eq, hj, ha,
    List.splitOn_append_cons_self]
  have happ : ∀ ps qs, nonBlank (ps ++ qs) = nonBlank ps ++ nonBlank qs := fun ps qs =>
    List.filter_append ps qs
  rw [happ, List.map_append, readings_append_of_blank p hx, readings_append_of_blank p hy]

theorem segments_joined (a b : List Char) : segments (a ++ '\n' :: ';' :: b) =
    ⟨(segments a).value ++ (segments b).value, (segments a).remarks ++ (segments b).remarks⟩ := by
  simp only [segments_eq, Reading.all, readings_joined, List.map_append, List.flatMap_append]

theorem tempo_scoreOf (s : List Segment) : (scoreOf s).tempo =
    max ((s.filterMap Segment.tempo?).getLast?.getD Score.defaultTempo) 1 := rfl

/-- The last tempo of the second list counts if it has one, else that of the first. -/
theorem tempo_scoreOf_append (s t : List Segment) : (scoreOf (s ++ t)).tempo =
    if t.filterMap Segment.tempo? = [] then (scoreOf s).tempo else (scoreOf t).tempo := by
  simp only [tempo_scoreOf, List.filterMap_append, List.getLast?_append]
  by_cases ht : t.filterMap Segment.tempo? = []
  · rw [if_pos ht, ht, List.getLast?_nil, Option.none_or]
  · rw [if_neg ht, List.getLast?_eq_some_getLast ht, Option.some_or]

theorem tracks_scoreOf_append (s t : List Segment) :
    (scoreOf (s ++ t)).tracks = (scoreOf s).tracks ++ (scoreOf t).tracks :=
  List.filterMap_append

/--
A line end and a semicolon between two sources keep them apart: the tracks and the diagnostics of
the first stand before those of the second, and the tempo is that of the second if one of its
segments gives a tempo.
-/
theorem joined_sources_read_apart (a b : String) :
    (compile (a ++ "\n;" ++ b)).tracks = (compile a).tracks ++ (compile b).tracks ∧
      (read (a ++ "\n;" ++ b)).diagnostics = (read a).diagnostics ++ (read b).diagnostics ∧
      (compile (a ++ "\n;" ++ b)).tempo =
        if ∃ text ∈ sourceSegments b.toList, (tempoGiven? text).isSome
        then (compile b).tempo else (compile a).tempo := by
  have hj : (a ++ "\n;" ++ b).toList = a.toList ++ '\n' :: ';' :: b.toList := by
    simp [String.toList_append]
  unfold compile read readChars
  rw [hj, segments_joined]
  refine ⟨tracks_scoreOf_append _ _, List.filterMap_append, ?_⟩
  rw [tempo_scoreOf_append, tempos_segments]
  by_cases hb : (sourceSegments b.toList).filterMap tempoGiven? = []
  · have hnone := List.filterMap_eq_nil_iff.mp hb
    have hex : ¬∃ text ∈ sourceSegments b.toList, (tempoGiven? text).isSome = true := by
      rintro ⟨text, ht, hs⟩
      rw [hnone text ht] at hs
      cases hs
    rw [if_pos hb, if_neg hex]
  · have hex : ∃ text ∈ sourceSegments b.toList, (tempoGiven? text).isSome = true := by
      by_contra hno
      refine hb (List.filterMap_eq_nil_iff.mpr fun text ht => ?_)
      by_contra hsome
      exact hno ⟨text, ht, Option.isSome_iff_ne_none.mpr hsome⟩
    rw [if_neg hb, if_pos hex]

end ScoreSynth.Notation
