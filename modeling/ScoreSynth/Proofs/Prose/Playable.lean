import ScoreSynth.Proofs.Notation.Account
import ScoreSynth.Proofs.Notation.DrumTokens
import ScoreSynth.Proofs.Prose.Division
import ScoreSynth.Proofs.Prose.Shapes
import ScoreSynth.Proofs.Text.Runs

/-!
# Something to play

Prose always gives something to play, with a note for each character that is no space. Generated
text is accepted for its shape, and the run that looks like a note may stand in a comment, in a name
or in a token that is dropped. Where nothing of the kind is the case, the run is part of the body of
a track, and what that body is cut into is played.
-/

namespace ScoreSynth

namespace Number

theorem isDigit_of_natural? {n : Nat} {s : List Char} (h : natural? s = some n) :
    ∀ c ∈ s, c.isDigit = true := by
  unfold natural? at h
  split at h
  · rename_i hs
    rw [Bool.and_eq_true, List.all_eq_true] at hs
    exact hs.2
  · cases h

theorem mem_of_unsigned? {limit n : Nat} {s : List Char} (h : unsigned? limit s = some n) :
    ∀ c ∈ s, c = '+' ∨ c.isDigit = true := by
  unfold unsigned? at h
  obtain ⟨hn, -⟩ := Option.filter_eq_some_iff.mp h
  split at hn
  · intro c hc
    exact (List.mem_cons.mp hc).imp_right (isDigit_of_natural? hn c)
  · exact fun c hc => .inr (isDigit_of_natural? hn c hc)

end Number

namespace Notation

/-! ## The notes of a source -/

theorem accepted_eq_some_iff {drums : Bool} {token : List Char} {n : Note} :
    accepted drums token = some n ↔ Token.note drums token = .ok n := by
  unfold accepted
  cases Token.note drums token <;> simp

theorem exists_note_of_not_refused {drums : Bool} {token : List Char}
    (h : refused drums token = none) : ∃ n, Token.note drums token = .ok n := by
  unfold refused at h
  split at h
  · exact ⟨_, ‹_›⟩
  · cases h

theorem body_of_keptTrack? {text name body : List Char} (h : keptTrack? text = some (name, body)) :
    ∃ p ∈ Text.cut ':' text, body = Text.trim p.2 := by
  obtain ⟨p, hcut, hp⟩ := Option.bind_eq_some_iff.mp h
  split at hp
  · cases hp
  · cases hp
    exact ⟨p, hcut, rfl⟩

def Sounds (source : List Char) (n : Note) : Prop :=
  ∃ segment ∈ sourceSegments source, ∃ name body, keptTrack? segment = some (name, body) ∧
    ∃ token ∈ bodyTokens body, Token.note (isDrumInstrument name) token = .ok n

theorem mem_segmentNotes {text : List Char} {n : Note} :
    n ∈ segmentNotes (Segment.read text).value ↔ ∃ name body, keptTrack? text = some (name, body) ∧
      ∃ token ∈ bodyTokens body, Token.note (isDrumInstrument name) token = .ok n := by
  rcases read_cases text with ⟨name, body, hk, -, h⟩ | ⟨bpm, hk, -, h⟩ | ⟨defect, -, hk, -, h⟩
  · have hnotes : segmentNotes (.track (track name body).value) =
        (bodyTokens body).filterMap (accepted (isDrumInstrument name)) := by
      rw [← notes_body]
      simp [segmentNotes, Segment.track?]
    rw [h, hk, hnotes, List.mem_filterMap]
    simp only [accepted_eq_some_iff]
    constructor
    · rintro ⟨token, ht, hn⟩
      exact ⟨name, body, rfl, token, ht, hn⟩
    · rintro ⟨_, _, heq, token, ht, hn⟩
      cases heq
      exact ⟨token, ht, hn⟩
  · rw [h, hk]
    simp [segmentNotes, Segment.track?]
  · rw [h, hk]
    simp [segmentNotes, Segment.dropped, Segment.track?]

theorem mem_notes_source {source : List Char} {n : Note} :
    n ∈ (readChars source).value.notes ↔ Sounds source n := by
  rw [notes_source, List.mem_flatMap]
  simp only [mem_segmentNotes]
  rfl

/-! ## Runs that are kept -/

section
variable {w source segment name body : List Char}

theorem infix_withoutComments (hne : w ≠ []) (hfeed : '\n' ∉ w) (hreturn : '\r' ∉ w)
    (hslash : Text.Apart '/' '/' source) (h : w <:+: source) : w <:+: withoutComments source := by
  obtain ⟨l, hl, hw⟩ := Text.exists_line_of_infix hne hfeed hreturn h
  have hbare : Text.beforeSlashes l = l :=
    Text.beforeSlashes_eq_self (hslash.of_isInfix (Text.infix_of_mem_lines hl))
  have hmem : Text.beforeSlashes l ∈ (Text.lines source).map Text.beforeSlashes :=
    List.mem_map_of_mem hl
  exact hw.trans (hbare ▸ Text.infix_intercalate '\n' hmem)

/-- A run without separators and not all blank stands in a piece that is not blank. -/
theorem exists_nonBlank_of_infix (sep : Char) (hsep : sep ∉ w) (hb : Text.allBlank w = false)
    {s : List Char} (h : w <:+: s) : ∃ l ∈ nonBlank (s.splitOn sep), w <:+: l := by
  obtain ⟨l, hl, hw⟩ := Text.exists_splitOn_of_infix hsep h
  exact ⟨l, mem_nonBlank_splitOn hl hw hb, hw⟩

end

end Notation

namespace Prose

open Notation

section
variable {w source segment : List Char}

theorem NoteShape.allBlank (h : NoteShape w) : Text.allBlank w = false :=
  Text.allBlank_of_forall h.ne_nil fun _ hc => isBlank_of_isNoteChar (h.isNoteChar hc)

theorem NoteShape.point (h : NoteShape w) : '.' ∈ w := by
  cases h
  simp

/-- A body with a run in it that looks like a note has a token. -/
theorem bodyTokens_ne_nil (hw : NoteShape w) {body : List Char} (h : w <:+: body) :
    bodyTokens body ≠ [] := by
  obtain ⟨p, hp, h⟩ := exists_nonBlank_of_infix '|' (hw.not_mem rfl) hw.allBlank h
  obtain ⟨c, hc, h⟩ := exists_nonBlank_of_infix ',' (hw.not_mem rfl) hw.allBlank h
  obtain ⟨token, ht⟩ := List.exists_mem_of_ne_nil _ (List.splitOn_ne_nil '+' c)
  exact List.ne_nil_of_mem (List.mem_flatMap.mpr ⟨p, hp, List.mem_flatMap.mpr ⟨c, hc, ht⟩⟩)

/-- A segment with such a run behind its colon gives no tempo, so it is a track or reported. -/
theorem exists_token_of_shape (hw : NoteShape w) (h : w <:+: segment)
    (hname : ∀ p ∈ Text.cut ':' segment, hasNote p.1 = false)
    (hnone : (Segment.read segment).diagnostics = []) : ∃ name body,
      keptTrack? segment = some (name, body) ∧
        ∃ token ∈ bodyTokens body, ∃ n, Token.note (isDrumInstrument name) token = .ok n := by
  have hbehind : ∀ p ∈ Text.cut ':' segment, w <:+: Text.trim p.2 := by
    intro p hcut
    obtain ⟨rfl, -⟩ := Text.cut_eq_some hcut
    rcases Text.infix_of_infix_append_cons (hw.not_mem rfl) h with h | h
    · have hno := hname p hcut
      rw [hasNote_iff.mpr ⟨w, hw, h⟩] at hno
      cases hno
    · exact Text.infix_trim hw.ne_nil hw.tight h
  rcases read_cases segment with ⟨name, body, hk, -, hr⟩ | ⟨bpm, -, ht, hr⟩ | ⟨defect, -, -, -, hr⟩
  · obtain ⟨p, hcut, hbody⟩ := body_of_keptTrack? hk
    obtain ⟨token, htoken⟩ :=
      List.exists_mem_of_ne_nil _ (bodyTokens_ne_nil hw (hbody ▸ hbehind p hcut))
    rw [hr] at hnone
    have hrefused := List.filterMap_eq_nil_iff.mp ((diagnostics_body name body).symm.trans hnone)
    exact ⟨name, body, hk, token, htoken, exists_note_of_not_refused (hrefused token htoken)⟩
  · -- the point of the run is in no number
    obtain ⟨p, hcut, hp⟩ := Option.bind_eq_some_iff.mp ht
    split at hp
    · obtain ⟨hu, -⟩ := Option.filter_eq_some_iff.mp hp
      rcases Number.mem_of_unsigned? hu '.' ((hbehind p hcut).subset hw.point) with h | h
      · cases h
      · cases h
    · cases hp
  · rw [hr, diagnostics_dropped] at hnone
    cases hnone

theorem sounds_of_shape (hslash : Text.Apart '/' '/' source)
    (hnone : (readChars source).diagnostics = [])
    (hname : ∀ segment ∈ sourceSegments source, ∀ p ∈ Text.cut ':' segment, hasNote p.1 = false)
    (hnote : hasNote source = true) : ∃ n, Sounds source n := by
  obtain ⟨w, hw, h⟩ := hasNote_iff.mp hnote
  have hkept : w <:+: withoutComments source :=
    infix_withoutComments hw.ne_nil (hw.not_mem rfl) (hw.not_mem rfl) hslash h
  obtain ⟨segment, hsegment, hws⟩ :=
    exists_nonBlank_of_infix ';' (hw.not_mem rfl) hw.allBlank hkept
  rw [diagnostics_source, List.flatMap_eq_nil_iff] at hnone
  obtain ⟨name, body, hk, token, ht, n, hn⟩ :=
    exists_token_of_shape hw hws (hname segment hsegment) (hnone segment hsegment)
  exact ⟨n, segment, hsegment, name, body, hk, token, ht, hn⟩

end

/-! ## Prose -/

theorem noteCount_score (text : String) :
    (score text).noteCount = (text.toList.filter (· ≠ ' ')).length := by
  have hnotes : (score text).notes = (text.toList.map chord).flatMap (·.notes) := by
    unfold Score.notes
    rw [score_eq, List.flatMap_singleton, chords_track]
  unfold Score.noteCount
  rw [hnotes]
  induction text.toList with
  | nil => rfl
  | cons c s ih =>
    rw [List.map_cons, List.flatMap_cons, List.length_append, ih]
    by_cases hc : c = ' '
    · rw [(chord_notes_eq_nil_iff c).mpr hc]
      simp [hc]
    · rw [chord_of_ne hc]
      simp [hc, Chord.ofNotes, Nat.add_comm]

theorem written_of_not_acceptable {generated : Option String}
    (h : ∀ g ∈ generated, isAcceptable g = false) (prose : String) :
    written generated prose = written none prose := by
  cases generated with
  | none => rfl
  | some g =>
    unfold written accept?
    simp [h g rfl]

/--
Prose with a character other than a space sounds unless generated text is accepted in its place, and
then as many notes as it has such characters. Accepted text is taken as it stands, and sounds if and
only if a token of a kept track in it is read as a note. That is so if it has no comment, if nothing
in it is dropped and if no name in it holds a run that looks like a note.
-/
theorem prose_or_accepted_sounds (generated : Option String) (prose : String)
    (h : ∃ c ∈ prose.toList, c ≠ ' ') :
    ((∀ g ∈ generated, isAcceptable g = false) →
      written generated prose = write (score prose) ∧
        (compile (written generated prose)).noteCount = (prose.toList.filter (· ≠ ' ')).length ∧
        0 < (compile (written generated prose)).noteCount) ∧
    ∀ g ∈ generated, isAcceptable g = true →
      written generated prose = String.ofList (enclosed g) ∧
        (accept? g).map (·.value) = some (compile (written generated prose)) ∧
        (0 < (compile (written generated prose)).noteCount ↔ ∃ n, Sounds (enclosed g) n) ∧
        (¬['/', '/'] <:+: enclosed g → (readChars (enclosed g)).diagnostics = [] →
          (∀ segment ∈ sourceSegments (enclosed g), ∀ p ∈ Text.cut ':' segment,
            hasNote p.1 = false) →
          0 < (compile (written generated prose)).noteCount) := by
  constructor
  · intro hnone
    have hw := written_of_not_acceptable hnone prose
    have hread : compile (written none prose) = (score prose).levelled.pruned :=
      congrArg Notation.Reading.value (read_written prose)
    have hcount : (compile (written generated prose)).noteCount =
        (prose.toList.filter (· ≠ ' ')).length := by
      rw [hw, hread, Score.noteCount_pruned, Score.noteCount_levelled, noteCount_score]
    refine ⟨hw, hcount, ?_⟩
    obtain ⟨c, hc, hne⟩ := h
    rw [hcount]
    exact List.length_pos_of_mem (List.mem_filter.mpr ⟨hc, by simpa using hne⟩)
  · intro g hg hacceptable
    obtain rfl : generated = some g := hg
    have hw : written (some g) prose = String.ofList (enclosed g) := by
      simp [written, accept?, hacceptable]
    have hresult : compile (written (some g) prose) = (readChars (enclosed g)).value := by
      unfold compile Notation.read
      rw [hw, String.toList_ofList]
    have hsounds : 0 < (compile (written (some g) prose)).noteCount ↔
        ∃ n, Sounds (enclosed g) n := by
      rw [hresult]
      simp only [← mem_notes_source]
      exact List.length_pos_iff_exists_mem
    have haccept : (accept? g).map (·.value) = some (compile (written (some g) prose)) := by
      unfold accept?
      rw [if_pos hacceptable, hresult]
      rfl
    refine ⟨hw, haccept, hsounds, fun hslash hnone hname => hsounds.mpr ?_⟩
    have hnote : hasNote (enclosed g) = true := by
      unfold isAcceptable looksLikeScore at hacceptable
      exact (Bool.and_eq_true_iff.mp hacceptable).2
    exact sounds_of_shape (Text.apart_iff.mpr hslash) hnone hname hnote

theorem prose_or_accepted_sounds_both :
    let accepted := "piano: C4.1 | Hb9.2;"
    (∃ c ∈ "a b".toList, c ≠ ' ') ∧ (compile (written (some "C4.1") "a b")).noteCount = 2 ∧
      0 < (compile (written (some accepted) "a b")).noteCount :=
  have h : ∃ c ∈ "a b".toList, c ≠ ' ' := ⟨'a', by decide, by decide⟩
  ⟨h, ((prose_or_accepted_sounds (some "C4.1") "a b" h).1 (by decide)).2.1,
    ((prose_or_accepted_sounds (some "piano: C4.1 | Hb9.2;") "a b" h).2 _ rfl (by decide)).2.2.2
      (by decide) (by decide) (by decide)⟩

/-- An octave that no note has still looks like one. -/
theorem accepted_without_note :
    (∃ c ∈ "ab".toList, c ≠ ' ') ∧ (accept? "piano:C99.1;").isSome = true ∧
      (accept? "piano:C99.1;").map (·.value.noteCount) = some 0 ∧
      ¬0 < (compile (written (some "piano:C99.1;") "ab")).noteCount :=
  ⟨⟨'a', by decide, by decide⟩, by decide, by decide, by decide⟩

end Prose

end ScoreSynth
