import ScoreSynth.Proofs.Notation.Tokens

/-!
# Reading a written score

Chords, patterns and tracks read back from what was written as their tokens do, and a written score
reads back as its pruned score reread, without a remark.
-/

namespace ScoreSynth

variable (read : Beat → Beat)

def Chord.reread (c : Chord) : Chord := .ofNotes (c.notes.map (Note.reread read))

def Pattern.reread (p : Pattern) : Pattern := ⟨p.chords.map (Chord.reread read)⟩

def Track.reread (t : Track) : Track := ⟨t.instrument, t.patterns.map (Pattern.reread read)⟩

def Score.reread (s : Score) : Score := ⟨s.tempo, s.tracks.map (Track.reread read)⟩

namespace Notation

/-! ## Chords, patterns and tracks -/

theorem all_of_forall {α β : Type} {xs : List α} {f : α → Reading β} {g : α → β}
    (h : ∀ x ∈ xs, f x = ⟨g x, []⟩) : Reading.all (xs.map f) = ⟨xs.map g, []⟩ := by
  have hv : (xs.map f).map (·.value) = xs.map g := by
    rw [List.map_map]
    exact List.map_congr_left fun x hx => by rw [Function.comp_apply, h x hx]
  have hr : (xs.map f).flatMap (·.remarks) = [] := by
    rw [List.flatMap_eq_nil_iff]
    intro r hr
    obtain ⟨x, hx, rfl⟩ := List.mem_map.mp hr
    rw [h x hx]
  unfold Reading.all
  rw [hv, hr]

theorem filterMap_id_some {α β : Type} (xs : List α) (g : α → β) :
    (xs.map fun x => some (g x)).filterMap id = xs.map g := by
  rw [List.filterMap_map]
  exact congrFun List.filterMap_eq_map' xs

section
variable {read : Beat → Beat} {drums : Bool} {c : Chord} {p : Pattern} {t : Track}

structure ReadableChord (read : Beat → Beat) (drums : Bool) (c : Chord) : Prop where
  ne_nil : c.notes ≠ []
  notes : ∀ n ∈ c.notes, Readable read drums n

structure ReadablePattern (read : Beat → Beat) (drums : Bool) (p : Pattern) : Prop where
  ne_nil : p.chords ≠ []
  chords : ∀ c ∈ p.chords, ReadableChord read drums c

structure ReadableTrack (read : Beat → Beat) (t : Track) : Prop where
  name : Nameable t.instrument.toList
  ne_nil : t.patterns ≠ []
  patterns : ∀ p ∈ t.patterns, ReadablePattern read t.isDrums p

theorem ReadableChord.write_ne_nil (h : ReadableChord read drums c) : writeChord c ≠ [] := by
  refine Text.intercalate_ne_nil (by simpa using h.ne_nil) fun l hl => ?_
  obtain ⟨n, -, rfl⟩ := List.mem_map.mp hl
  exact writeNote_ne_nil n

theorem ReadablePattern.write_ne_nil (h : ReadablePattern read drums p) :
    writtenPattern p ≠ [] := by
  refine Text.intercalate_ne_nil (by simpa using h.ne_nil) fun l hl => ?_
  obtain ⟨c, hc, rfl⟩ := List.mem_map.mp hl
  exact (h.chords c hc).write_ne_nil

theorem ReadableTrack.body_ne_nil (h : ReadableTrack read t) : writtenBody t ≠ [] := by
  refine Text.intercalate_ne_nil (by simpa using h.ne_nil) fun l hl => ?_
  obtain ⟨p, hp, rfl⟩ := List.mem_map.mp hl
  exact (h.patterns p hp).write_ne_nil

theorem ReadableChord.mem_write (h : ReadableChord read drums c) {x : Char}
    (hx : x ∈ writeChord c) : x = '+' ∨ isNoteChar x = true :=
  mem_writeChord (fun n hn => (h.notes n hn).fits) hx

theorem ReadablePattern.mem_write (h : ReadablePattern read drums p) {x : Char}
    (hx : x ∈ writtenPattern p) : x = ',' ∨ x = '+' ∨ isNoteChar x = true :=
  mem_writtenPattern (fun c hc n hn => ((h.chords c hc).notes n hn).fits) hx

theorem ReadableTrack.mem_body (h : ReadableTrack read t) {x : Char} (hx : x ∈ writtenBody t) :
    x = '|' ∨ x = ',' ∨ x = '+' ∨ isNoteChar x = true :=
  mem_writtenBody (fun p hp c hc n hn => (((h.patterns p hp).chords c hc).notes n hn).fits) hx

theorem chord_writeChord (h : ReadableChord read drums c) :
    chord drums (writeChord c) = ⟨c.reread read, []⟩ := by
  have hs : (writeChord c).splitOn '+' = c.notes.map writeNote := by
    refine List.splitOn_intercalate '+' (fun l hl hplus => ?_) (by simpa using h.ne_nil)
    obtain ⟨n, hn, rfl⟩ := List.mem_map.mp hl
    exact absurd (isNoteChar_of_mem_writeNote (h.notes n hn).fits hplus) (by decide)
  have hread : Reading.all ((c.notes.map writeNote).map (Token.read drums)) =
      ⟨c.notes.map fun n => some (n.reread read), []⟩ := by
    rw [List.map_map]
    exact all_of_forall fun n hn => read_writeNote (h.notes n hn)
  unfold chord
  rw [hs, hread]
  simp only [filterMap_id_some]
  rfl

theorem chordPiece_writeChord (h : ReadableChord read drums c) (text : List Char) :
    chordPiece drums text (writeChord c) = ⟨some (c.reread read), []⟩ := by
  have hb : Text.allBlank (writeChord c) = false := by
    refine Text.allBlank_of_forall h.write_ne_nil fun x hx => ?_
    rcases h.mem_write hx with rfl | hx
    · rfl
    · exact isBlank_of_isNoteChar hx
  unfold chordPiece
  rw [hb, chord_writeChord h]
  rfl

theorem pattern_writtenPattern (h : ReadablePattern read drums p) :
    pattern drums (writtenPattern p) = ⟨p.reread read, []⟩ := by
  have hs : (writtenPattern p).splitOn ',' = p.chords.map writeChord := by
    refine List.splitOn_intercalate ',' (fun l hl hcomma => ?_) (by simpa using h.ne_nil)
    obtain ⟨c, hc, rfl⟩ := List.mem_map.mp hl
    exact absurd ((h.chords c hc).mem_write hcomma) (by decide)
  have hread : Reading.all
      ((p.chords.map writeChord).map (chordPiece drums (writtenPattern p))) =
      ⟨p.chords.map fun c => some (c.reread read), []⟩ := by
    rw [List.map_map]
    exact all_of_forall fun c hc => chordPiece_writeChord (h.chords c hc) _
  unfold pattern
  rw [hs, hread]
  simp only [filterMap_id_some]
  rfl

theorem ReadablePattern.nonBlank (h : ReadablePattern read drums p) :
    Text.allBlank (writtenPattern p) = false := by
  refine Text.allBlank_of_forall h.write_ne_nil fun x hx => ?_
  rcases h.mem_write hx with rfl | rfl | hx
  · rfl
  · rfl
  · exact isBlank_of_isNoteChar hx

theorem nonBlank_eq_self {ls : List (List Char)} (h : ∀ l ∈ ls, Text.allBlank l = false) :
    nonBlank ls = ls := by
  unfold nonBlank
  rw [List.filter_eq_self]
  intro l hl
  rw [h l hl]
  rfl

theorem track_writtenBody (h : ReadableTrack read t) :
    track t.instrument.toList (writtenBody t) = ⟨t.reread read, []⟩ := by
  have hs : (writtenBody t).splitOn '|' = t.patterns.map writtenPattern := by
    refine List.splitOn_intercalate '|' (fun l hl hbar => ?_) (by simpa using h.ne_nil)
    obtain ⟨p, hp, rfl⟩ := List.mem_map.mp hl
    exact absurd ((h.patterns p hp).mem_write hbar) (by decide)
  have hb : nonBlank (t.patterns.map writtenPattern) = t.patterns.map writtenPattern := by
    refine nonBlank_eq_self fun l hl => ?_
    obtain ⟨p, hp, rfl⟩ := List.mem_map.mp hl
    exact (h.patterns p hp).nonBlank
  have hread : Reading.all
      ((t.patterns.map writtenPattern).map (pattern (isDrumInstrument t.instrument.toList))) =
      ⟨t.patterns.map (Pattern.reread read), []⟩ := by
    rw [List.map_map]
    exact all_of_forall fun p hp => pattern_writtenPattern (h.patterns p hp)
  unfold track
  rw [hs, hb, hread]
  simp only [String.ofList_toList]
  rfl

end

/-! ## Segments and scores -/

section
variable {read : Beat → Beat} {t : Track} {s : Score}

/-- A score without empty parts whose text has no line end that reading would change. -/
structure ReadableScore (read : Beat → Beat) (s : Score) : Prop where
  tempo_pos : 0 < s.tempo
  tempo_le : s.tempo ≤ Number.max32
  tracks : ∀ t ∈ s.tracks, ReadableTrack read t
  returns : ∀ t ∈ s.tracks, Text.Apart '\r' '\n' t.instrument.toList

theorem read_tempoSegment {tempo : Nat} (h0 : 0 < tempo) (hle : tempo ≤ Number.max32) :
    Segment.read (tempoSegment tempo) = ⟨.tempo tempo, []⟩ := by
  have hcut : Text.cut ':' (tempoSegment tempo) =
      some ("tempo".toList, Number.decimalText tempo) :=
    Text.cut_append_cons (s := "tempo".toList) (by decide) _
  have htrim : Text.trim (Number.decimalText tempo) = Number.decimalText tempo :=
    (Text.tight_of_forall fun _ hc => isBlank_of_isNoteChar
      (isNoteChar_of_isDigit (Number.isDigit_of_mem_decimalText hc))).trim_eq
  have hname : Text.trim "tempo".toList = "tempo".toList := by decide
  unfold Segment.read
  rw [hcut]
  simp only [hname, htrim]
  unfold Segment.ofNamed
  rw [if_neg (by decide), if_pos (by decide), Number.unsigned?_decimalText hle]
  simp only [Option.filter_some, decide_eq_true h0]
  rfl

theorem read_trackSegment (h : ReadableTrack read t) :
    Segment.read (trackSegment t) = ⟨.track (t.reread read), []⟩ := by
  have hcut : Text.cut ':' (trackSegment t) =
      some ('\n' :: t.instrument.toList, writtenBody t) := by
    refine Text.cut_append_cons (s := '\n' :: t.instrument.toList) ?_ _
    rw [List.mem_cons, not_or]
    exact ⟨by decide, h.name.colon⟩
  have hname : Text.trim ('\n' :: t.instrument.toList) = t.instrument.toList := by
    rw [Text.trim_cons_of_blank (by decide), h.name.tight.trim_eq]
  have hbody : Text.trim (writtenBody t) = writtenBody t := by
    refine (Text.tight_of_forall fun x hx => ?_).trim_eq
    rcases h.mem_body hx with rfl | rfl | rfl | hx
    · rfl
    · rfl
    · rfl
    · exact isBlank_of_isNoteChar hx
  unfold Segment.read
  rw [hcut]
  simp only [hname, hbody]
  unfold Segment.ofNamed
  rw [if_neg (by simpa using h.name.ne_nil), if_neg (by simp [h.name.not_tempo]),
    if_neg (by simpa using h.body_ne_nil), track_writtenBody h]

def isSegmentChar (c : Char) : Bool := isNoteChar c || ['\n', ':', '|', ',', '+'].contains c

theorem isSegmentChar_of_isNoteChar {c : Char} (h : isNoteChar c = true) :
    isSegmentChar c = true := by
  unfold isSegmentChar
  rw [h]
  rfl

theorem mem_tempoSegment {tempo : Nat} {c : Char} (hc : c ∈ tempoSegment tempo) :
    isSegmentChar c = true := by
  rcases List.mem_append.mp hc with hc | hc
  · have h : "tempo:".toList.all isSegmentChar = true := by decide
    exact List.all_eq_true.mp h c hc
  · exact isSegmentChar_of_isNoteChar
      (isNoteChar_of_isDigit (Number.isDigit_of_mem_decimalText hc))

theorem ReadableTrack.isSegmentChar (h : ReadableTrack read t) {c : Char}
    (hc : c ∈ writtenBody t) : isSegmentChar c = true := by
  rcases h.mem_body hc with rfl | rfl | rfl | hc
  · rfl
  · rfl
  · rfl
  · exact isSegmentChar_of_isNoteChar hc

theorem mem_trackSegment (h : ReadableTrack read t) {c : Char} (hc : c ∈ trackSegment t) :
    c ∈ t.instrument.toList ∨ isSegmentChar c = true := by
  rcases List.mem_cons.mp hc with rfl | hc
  · exact .inr rfl
  · refine (List.mem_append.mp hc).imp_right fun hc => ?_
    rcases List.mem_cons.mp hc with rfl | hc
    · rfl
    · exact h.isSegmentChar hc

/-- Two characters that stand side by side in no name do so nowhere in the text. -/
theorem apart_writeChars (h : ReadableScore read s.pruned) {a b : Char}
    (hname : ∀ t ∈ s.pruned.tracks, Text.Apart a b t.instrument.toList)
    (ha : isSegmentChar a = false) (hsep : ';' ≠ a) (hb : b ≠ ':' ∧ b ≠ ';') :
    Text.Apart a b (writeChars s) := by
  have hne : ∀ {c}, isSegmentChar c = true → c ≠ a := by
    rintro c hc rfl
    rw [ha] at hc
    cases hc
  rw [writeChars_eq]
  refine Text.apart_intercalate hsep hb.2.symm fun l hl => ?_
  rcases List.mem_append.mp hl with hl | hl
  · rcases List.mem_cons.mp hl with rfl | hl
    · exact Text.apart_of_not_mem (.inl fun hm => hne (mem_tempoSegment hm) rfl)
    · obtain ⟨t, ht, rfl⟩ := List.mem_map.mp hl
      have hbody : a ∉ writtenBody t := fun hm => hne ((h.tracks t ht).isSegmentChar hm) rfl
      have hbare : Text.Apart a b (t.instrument.toList ++ ':' :: writtenBody t) :=
        (Text.apart_append_cons (hne rfl) hb.1.symm).mpr
          ⟨hname t ht, Text.apart_of_not_mem (.inl hbody)⟩
      exact List.isChain_cons.mpr ⟨fun _ _ hc => hne rfl hc.1, hbare⟩
  · rw [List.mem_singleton.mp hl]
    exact .nil

theorem getLast?_writeChars (s : Score) : (writeChars s).getLast? = some ';' := by
  rw [writeChars_eq, Text.intercalate_concat (show writtenSegments s.pruned ≠ [] from nofun)]
  simp

theorem withoutComments_writeChars (h : ReadableScore read s.pruned) :
    withoutComments (writeChars s) = writeChars s := by
  have hslash : Text.Apart '/' '/' (writeChars s) :=
    apart_writeChars h (fun t ht => (h.tracks t ht).name.slashes) (by decide) (by decide)
      (by decide)
  have hreturn : Text.Apart '\r' '\n' (writeChars s) :=
    apart_writeChars h h.returns (by decide) (by decide) (by decide)
  unfold withoutComments
  rw [Text.lines_eq_splitOn hreturn (getLast?_writeChars s) (by decide)]
  have hmap : ((writeChars s).splitOn '\n').map Text.beforeSlashes = (writeChars s).splitOn '\n' :=
    Text.map_eq_self fun l hl =>
      Text.beforeSlashes_eq_self (hslash.of_isInfix (Text.infix_of_mem_splitOn hl))
  rw [hmap, List.intercalate_splitOn]

theorem nonBlank_writeChars (h : ReadableScore read s.pruned) :
    nonBlank ((writeChars s).splitOn ';') = writtenSegments s.pruned := by
  have hs : (writeChars s).splitOn ';' = writtenSegments s.pruned ++ [[]] := by
    rw [writeChars_eq]
    refine List.splitOn_intercalate ';' (fun l hl hsep => ?_)
      (List.append_ne_nil_of_right_ne_nil _ (List.cons_ne_nil _ _))
    rcases List.mem_append.mp hl with hl | hl
    · rcases List.mem_cons.mp hl with rfl | hl
      · exact absurd (mem_tempoSegment hsep) (by decide)
      · obtain ⟨t, ht, rfl⟩ := List.mem_map.mp hl
        rcases mem_trackSegment (h.tracks t ht) hsep with hsep | hsep
        · exact (h.tracks t ht).name.semicolon hsep
        · exact absurd hsep (by decide)
    · rw [List.mem_singleton.mp hl] at hsep
      cases hsep
  have hcolon : ∀ l ∈ writtenSegments s.pruned, Text.allBlank l = false := by
    intro l hl
    refine Text.allBlank_eq_false (c := ':') ?_ (by decide)
    rcases List.mem_cons.mp hl with rfl | hl
    · exact List.mem_append_left _ (by decide)
    · obtain ⟨t, -, rfl⟩ := List.mem_map.mp hl
      exact List.mem_cons_of_mem _ (List.mem_append_right _ List.mem_cons_self)
  have hlast : nonBlank [[]] = [] := rfl
  rw [hs]
  unfold nonBlank at hlast ⊢
  rw [List.filter_append, hlast, List.append_nil]
  exact nonBlank_eq_self hcolon

/-- A written score reads back without a remark, as its pruned score reread. -/
theorem readChars_writeChars (h : ReadableScore read s.pruned) :
    readChars (writeChars s) = ⟨s.pruned.reread read, []⟩ := by
  have hseg : segments (writeChars s) =
      ⟨.tempo s.tempo :: s.pruned.tracks.map fun t => .track (t.reread read), []⟩ := by
    unfold segments
    rw [withoutComments_writeChars h, nonBlank_writeChars h]
    have htracks : Reading.all ((s.pruned.tracks.map trackSegment).map Segment.read) =
        ⟨s.pruned.tracks.map fun t => .track (t.reread read), []⟩ := by
      rw [List.map_map]
      exact all_of_forall fun t ht => read_trackSegment (h.tracks t ht)
    obtain ⟨hv, hr⟩ := Reading.mk.inj htracks
    unfold writtenSegments Reading.all
    rw [List.map_cons, List.map_cons, List.flatMap_cons, hv, hr,
      read_tempoSegment h.tempo_pos h.tempo_le]
    rfl
  have htempo : (s.pruned.tracks.map fun t => Segment.track (t.reread read)).filterMap
      Segment.tempo? = [] := by
    rw [List.filterMap_map, List.filterMap_eq_nil_iff]
    exact fun _ _ => rfl
  have htrack : (s.pruned.tracks.map fun t => Segment.track (t.reread read)).filterMap
      Segment.track? = s.pruned.tracks.map (Track.reread read) := by
    rw [List.filterMap_map]
    exact congrFun List.filterMap_eq_map' _
  have hmax : max s.tempo 1 = s.tempo := max_eq_left h.tempo_pos
  have hscore : scoreOf (.tempo s.tempo :: s.pruned.tracks.map fun t => .track (t.reread read)) =
      s.pruned.reread read := by
    unfold scoreOf
    rw [List.filterMap_cons_some (f := Segment.tempo?) rfl,
      List.filterMap_cons_none (f := Segment.track?) rfl, htempo, htrack]
    simp only [List.getLast?_singleton, Option.getD_some, Score.ofTracks, hmax]
    rfl
  unfold readChars
  rw [hseg]
  simp only [hscore]

end

end Notation

end ScoreSynth
