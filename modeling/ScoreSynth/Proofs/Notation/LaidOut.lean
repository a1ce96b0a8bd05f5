import ScoreSynth.Proofs.Notation.Layout

/-!
# Reading a layout

Whatever the gaps, entries that are laid out as a text are read as one track each, and the
diagnostics are those on the tokens that were refused.
-/

namespace ScoreSynth.Notation

/-! ## Items between separators -/

section
variable {α : Type} {sep : Char} {G : List Char → Prop} {R : α → List Char → Prop}
  {xs : List α} {s : List Char}

/-- What is done with the kept pieces of a text is done with its items. -/
theorem Spread.map_pieces {β : Type} (keep : List Char → Bool) {f : List Char → β} {k : α → β}
    (h : Spread sep G R xs s) (hG : ∀ g, G g → sep ∉ g ∧ keep g = false)
    (hR : ∀ x ∈ xs, ∀ p, R x p → sep ∉ p ∧ keep p = true)
    (hf : ∀ x ∈ xs, ∀ p, R x p → f p = k x) :
    ((s.splitOn sep).filter keep).map f = xs.map k := by
  -- a filler or an item holds no separator, so the first cut is right behind it
  induction h with
  | @gap g hg =>
    obtain ⟨hsep, hkeep⟩ := hG g hg
    rw [List.splitOn_eq_singleton hsep]
    simp [hkeep]
  | @item x p hp =>
    obtain ⟨hsep, hkeep⟩ := hR x List.mem_cons_self p hp
    rw [List.splitOn_eq_singleton hsep]
    simp [hkeep, hf x List.mem_cons_self p hp]
  | @gap_cons g xs s hg _ ih =>
    obtain ⟨hsep, hkeep⟩ := hG g hg
    rw [List.splitOn_append_cons_self_of_not_mem hsep]
    simp [hkeep, ih hR hf]
  | @item_cons x p xs s hp _ ih =>
    obtain ⟨hsep, hkeep⟩ := hR x List.mem_cons_self p hp
    have hrest := ih (fun y hy => hR y (List.mem_cons_of_mem _ hy))
      fun y hy => hf y (List.mem_cons_of_mem _ hy)
    rw [List.splitOn_append_cons_self_of_not_mem hsep]
    simp [hkeep, hf x List.mem_cons_self p hp, hrest]

theorem Spread.map_nonBlank {β : Type} {f : List Char → β} {k : α → β}
    (h : Spread sep Blank R xs s) (hsep : Text.isBlank sep = false)
    (hR : ∀ x ∈ xs, ∀ p, R x p → sep ∉ p ∧ Text.allBlank p = false)
    (hf : ∀ x ∈ xs, ∀ p, R x p → f p = k x) : (nonBlank (s.splitOn sep)).map f = xs.map k := by
  apply h.map_pieces (fun p => !Text.allBlank p) _ _ hf
  · intro g hg
    exact ⟨Text.not_mem_of_allBlank hg hsep, by simp [show Text.allBlank g = true from hg]⟩
  · intro x hx p hp
    simpa using hR x hx p hp

theorem Spread.not_mem {c : Char} (h : Spread sep G R xs s) (hc : c ≠ sep)
    (hG : ∀ g, G g → c ∉ g) (hR : ∀ x ∈ xs, ∀ p, R x p → c ∉ p) : c ∉ s := by
  induction h with
  | gap hg => exact hG _ hg
  | item hp => exact hR _ List.mem_cons_self _ hp
  | gap_cons hg _ ih =>
    rw [List.mem_append, List.mem_cons, not_or, not_or]
    exact ⟨hG _ hg, hc, ih hR⟩
  | item_cons hp _ ih =>
    rw [List.mem_append, List.mem_cons, not_or, not_or]
    exact ⟨hR _ List.mem_cons_self _ hp, hc, ih fun y hy => hR y (List.mem_cons_of_mem _ hy)⟩

theorem Spread.allBlank_eq_false (h : Spread sep G R xs s) (hne : xs ≠ [])
    (hsep : Text.isBlank sep = false) (hR : ∀ x ∈ xs, ∀ p, R x p → Text.allBlank p = false) :
    Text.allBlank s = false := by
  cases h with
  | gap hg => exact absurd rfl hne
  | item hp => exact hR _ List.mem_cons_self _ hp
  | gap_cons hg h => exact Text.allBlank_eq_false (by simp) hsep
  | item_cons hp h => exact Text.allBlank_eq_false (by simp) hsep

/-- Only the first and the last piece lose a blank. -/
theorem Spread.shrinks (hsep : Text.isBlank sep = false) (hG : Text.Shrinks G)
    (hR : ∀ x, Text.Shrinks (R x)) : Text.Shrinks (Spread sep G R xs) := by
  have hne : ∀ c, Text.isBlank c = true → c ≠ sep := by
    rintro c hc rfl
    rw [hsep] at hc
    cases hc
  constructor
  · intro c s hc h
    generalize ht : c :: s = t at h
    cases h with
    | gap hg => exact .gap (hG.left c s hc (ht ▸ hg))
    | item hp => exact .item ((hR _).left c s hc (ht ▸ hp))
    | @gap_cons g xs u hg h =>
      cases g with
      | nil => exact absurd (List.cons.inj ht).1 (hne c hc)
      | cons d g =>
        obtain ⟨rfl, rfl⟩ := List.cons.inj ht
        exact .gap_cons (hG.left c g hc hg) h
    | @item_cons x p xs u hp h =>
      cases p with
      | nil => exact absurd (List.cons.inj ht).1 (hne c hc)
      | cons d p =>
        obtain ⟨rfl, rfl⟩ := List.cons.inj ht
        exact .item_cons ((hR x).left c p hc hp) h
  · intro s c hc h
    generalize ht : s ++ [c] = t at h
    induction h generalizing s with
    | gap hg => exact .gap (hG.right s c hc (ht ▸ hg))
    | item hp => exact .item ((hR _).right s c hc (ht ▸ hp))
    | gap_cons hg _ ih =>
      obtain ⟨w, rfl, rfl⟩ := Text.concat_eq_append_cons ht (hne c hc)
      exact .gap_cons hg (ih w rfl)
    | item_cons hp _ ih =>
      obtain ⟨w, rfl, rfl⟩ := Text.concat_eq_append_cons ht (hne c hc)
      exact .item_cons hp (ih w rfl)

end

/-! ## Trimmed words -/

section
variable {core text : List Char}

theorem Trimmed.not_mem {c : Char} (h : Trimmed core text) (hc : c ∉ core)
    (hb : Text.isBlank c = false) : c ∉ text := by
  intro hmem
  rcases h.2 c hmem with hblank | hcore
  · rw [hb] at hblank
    cases hblank
  · exact hc hcore

theorem Trimmed.allBlank_eq (h : Trimmed core text) : Text.allBlank text = Text.allBlank core := by
  rw [Bool.eq_iff_iff, ← Text.trim_eq_nil_iff, ← Text.trim_eq_nil_iff, h.1]

theorem shrinks_trimmed : Text.Shrinks (Trimmed core) := by
  constructor
  · intro c s hc h
    refine ⟨?_, fun d hd => h.2 d (List.mem_cons_of_mem c hd)⟩
    rw [← h.1, Text.trim_cons_of_blank hc]
  · intro s c hc h
    refine ⟨?_, fun d hd => h.2 d (List.mem_append_left _ hd)⟩
    have hblank : Text.allBlank [c] = true := by simp [Text.allBlank, hc]
    rw [← h.1, Text.trim_append_of_blank s hblank]

theorem shrinks_blank : Text.Shrinks Blank := by
  unfold Blank
  constructor
  · intro c s hc h
    exact (Bool.and_eq_true_iff.mp h).2
  · intro s c hc h
    rw [Text.allBlank_append] at h
    exact (Bool.and_eq_true_iff.mp h).1

end

theorem shrinks_chordText {tokens : List (List Char)} :
    Text.Shrinks (ChordText Trimmed tokens) := by
  apply Spread.shrinks (by decide)
  · exact ⟨fun c s hc => id, fun s c hc => id⟩
  · intro t
    exact shrinks_trimmed

theorem shrinks_bodyText {patterns : List (List (List (List Char)))} :
    Text.Shrinks (BodyText Blank Trimmed patterns) := by
  apply Spread.shrinks (by decide) shrinks_blank
  intro p
  apply Spread.shrinks (by decide) shrinks_blank
  intro c
  exact shrinks_chordText

/-! ## Chords -/

section
variable {drums : Bool} {tokens : List (List Char)} {s : List Char}

theorem note_trim (token : List Char) :
    Token.note drums (Text.trim token) = Token.note drums token := by
  cases drums <;> simp [Token.note, Token.melodicNote, Token.drumNote, Text.trim_trim]

theorem accepted_trim : accepted drums ∘ Text.trim = accepted drums := by
  funext token
  unfold accepted
  rw [Function.comp_apply, note_trim]

theorem refused_trim : refused drums ∘ Text.trim = refused drums := by
  funext token
  unfold refused
  rw [Function.comp_apply, note_trim]

theorem not_mem_chordText {c : Char} (hp : ProperChord tokens) (h : ChordText Trimmed tokens s)
    (hc : c ∈ [';', '|', ',']) : c ∉ s := by
  have hsep : ∀ c ∈ [';', '|', ','],
      c ≠ '+' ∧ Text.isBlank c = false ∧ c ∈ [';', '|', ',', '+', '/', '\n'] := by
    simp [Text.isBlank]
  obtain ⟨hne, hb, hmem⟩ := hsep c hc
  apply Spread.not_mem h hne
  · intro g hg
    cases hg
  · intro t ht p hpiece
    exact hpiece.not_mem ((hp.2 t ht).free c hmem) hb

theorem not_blank_chordText (hp : ProperChord tokens) (h : ChordText Trimmed tokens s) :
    Text.allBlank s = false := by
  apply Spread.allBlank_eq_false h hp.1 (by decide)
  intro t ht p hpiece
  rw [hpiece.allBlank_eq]
  exact (hp.2 t ht).not_blank

theorem trims_chordText (hp : ProperChord tokens) (h : ChordText Trimmed tokens s) :
    (s.splitOn '+').map Text.trim = tokens.map Text.trim := by
  have hpieces : ((s.splitOn '+').filter fun _ => true).map Text.trim = tokens.map Text.trim := by
    apply Spread.map_pieces _ h
    · intro g hg
      cases hg
    · intro t ht p hpiece
      exact ⟨hpiece.not_mem ((hp.2 t ht).free '+' (by decide)) (by decide), rfl⟩
    · intro t ht p hpiece
      exact hpiece.1
  rwa [List.filter_true] at hpieces

theorem value_chordText (hp : ProperChord tokens) (h : ChordText Trimmed tokens s) :
    (chord drums s).value = .ofNotes (tokens.filterMap (accepted drums)) := by
  rw [value_chord, ← accepted_trim, ← List.filterMap_map, trims_chordText hp h,
    List.filterMap_map]

theorem diagnostics_chordText (hp : ProperChord tokens) (h : ChordText Trimmed tokens s) :
    (chord drums s).diagnostics = tokens.filterMap (refused drums) := by
  rw [diagnostics_chord, ← refused_trim, ← List.filterMap_map, trims_chordText hp h,
    List.filterMap_map]

end

/-! ## Patterns -/

section
variable {drums : Bool} {chords : List (List (List Char))} {s : List Char}

def patternOf (drums : Bool) (chords : List (List (List Char))) : Pattern :=
  ⟨chords.map fun tokens => .ofNotes (tokens.filterMap (accepted drums))⟩

theorem not_mem_patternText {c : Char} (hp : ProperPattern chords)
    (h : PatternText Blank Trimmed chords s) (hc : c ∈ [';', '|']) : c ∉ s := by
  have hsep : ∀ c ∈ [';', '|'], c ≠ ',' ∧ Text.isBlank c = false ∧ c ∈ [';', '|', ','] := by
    simp [Text.isBlank]
  obtain ⟨hne, hb, hmem⟩ := hsep c hc
  apply Spread.not_mem h hne
  · intro g hg
    exact Text.not_mem_of_allBlank hg hb
  · intro tokens ht p hpiece
    exact not_mem_chordText (hp.2 tokens ht) hpiece hmem

theorem not_blank_patternText (hp : ProperPattern chords) (h : PatternText Blank Trimmed chords s) :
    Text.allBlank s = false := by
  apply Spread.allBlank_eq_false h hp.1 (by decide)
  intro tokens ht p hpiece
  exact not_blank_chordText (hp.2 tokens ht) hpiece

theorem map_chords {β : Type} {f : List Char → β} {k : List (List Char) → β}
    (hp : ProperPattern chords) (h : PatternText Blank Trimmed chords s)
    (hf : ∀ tokens ∈ chords, ∀ p, ChordText Trimmed tokens p → f p = k tokens) :
    (nonBlank (s.splitOn ',')).map f = chords.map k := by
  apply Spread.map_nonBlank h (by decide) _ hf
  intro tokens ht p hpiece
  have hproper := hp.2 tokens ht
  exact ⟨not_mem_chordText hproper hpiece (by decide), not_blank_chordText hproper hpiece⟩

theorem value_patternText (hp : ProperPattern chords) (h : PatternText Blank Trimmed chords s) :
    (pattern drums s).value = patternOf drums chords := by
  have hchords : (pattern drums s).value.chords = (patternOf drums chords).chords := by
    rw [chords_pattern]
    apply map_chords hp h
    intro tokens ht p hpiece
    exact value_chordText (hp.2 tokens ht) hpiece
  exact congrArg Pattern.mk hchords

theorem diagnostics_patternText (hp : ProperPattern chords)
    (h : PatternText Blank Trimmed chords s) : (pattern drums s).diagnostics =
      chords.flatMap fun tokens => tokens.filterMap (refused drums) := by
  rw [diagnostics_pattern, List.flatMap_def, List.flatMap_def]
  apply congrArg List.flatten
  apply map_chords hp h
  intro tokens ht p hpiece
  exact diagnostics_chordText (hp.2 tokens ht) hpiece

end

/-! ## Tracks -/

def Entry.track (e : Entry) : Track :=
  ⟨String.ofList e.name, e.patterns.map (patternOf (isDrumInstrument e.name))⟩

def Entry.diagnostics (e : Entry) : List Diagnostic :=
  e.patterns.flatMap fun chords => chords.flatMap fun tokens =>
    tokens.filterMap (refused (isDrumInstrument e.name))

section
variable {e : Entry} {s : List Char}

theorem semicolon_not_mem_bodyText (he : ProperEntry e) (h : BodyText Blank Trimmed e.patterns s) :
    ';' ∉ s := by
  apply Spread.not_mem h (by decide)
  · intro g hg
    exact Text.not_mem_of_allBlank hg (by decide)
  · intro chords hc p hp
    exact not_mem_patternText (he.patterns chords hc) hp (by decide)

theorem not_blank_bodyText (he : ProperEntry e) (h : BodyText Blank Trimmed e.patterns s) :
    Text.allBlank s = false := by
  apply Spread.allBlank_eq_false h he.patterns_ne_nil (by decide)
  intro chords hc p hp
  exact not_blank_patternText (he.patterns chords hc) hp

theorem map_patterns {β : Type} {f : List Char → β} {k : List (List (List Char)) → β}
    (he : ProperEntry e) (h : BodyText Blank Trimmed e.patterns s)
    (hf : ∀ chords ∈ e.patterns, ∀ p, PatternText Blank Trimmed chords p → f p = k chords) :
    (nonBlank (s.splitOn '|')).map f = e.patterns.map k := by
  apply Spread.map_nonBlank h (by decide) _ hf
  intro chords hc p hp
  have hproper := he.patterns chords hc
  exact ⟨not_mem_patternText hproper hp (by decide), not_blank_patternText hproper hp⟩

theorem value_bodyText (he : ProperEntry e) (h : BodyText Blank Trimmed e.patterns s) :
    (track e.name s).value = e.track := by
  have hpatterns : (track e.name s).value.patterns = e.track.patterns := by
    rw [patterns_track]
    apply map_patterns he h
    intro chords hc p hp
    exact value_patternText (he.patterns chords hc) hp
  exact congrArg (Track.mk (String.ofList e.name)) hpatterns

theorem diagnostics_bodyText (he : ProperEntry e) (h : BodyText Blank Trimmed e.patterns s) :
    (track e.name s).diagnostics = e.diagnostics := by
  rw [diagnostics_track, Entry.diagnostics, List.flatMap_def, List.flatMap_def]
  apply congrArg List.flatten
  apply map_patterns he h
  intro chords hc p hp
  exact diagnostics_patternText (he.patterns chords hc) hp

theorem read_trackText (he : ProperEntry e) (h : TrackText Blank Trimmed e s) :
    (Segment.read s).value = .track e.track ∧ (Segment.read s).diagnostics = e.diagnostics := by
  obtain ⟨n, b, hn, hb, rfl⟩ := h
  have hcolon : ':' ∉ n := hn.not_mem (he.name.free ':' (by decide)) (by decide)
  have hname : Text.trim n = e.name := by rw [hn.1, he.name.tight.trim_eq]
  -- the body is cut into patterns only after it was trimmed
  have htrim : BodyText Blank Trimmed e.patterns (Text.trim b) := shrinks_bodyText.trim hb
  have hbody : Text.trim b ≠ [] := by
    intro hnil
    have hblank := not_blank_bodyText he hb
    rw [Text.trim_eq_nil_iff.mp hnil] at hblank
    cases hblank
  have htempo : Segment.isTempoName e.name = false := by
    simpa [Segment.isTempoName] using he.name.not_tempo
  have hread : Segment.read (n ++ ':' :: b) =
      ⟨.track (track e.name (Text.trim b)).value, (track e.name (Text.trim b)).remarks⟩ := by
    unfold Segment.read
    rw [Text.cut_append_cons hcolon]
    simp [Segment.ofNamed, hname, htempo, he.name.ne_nil, hbody]
  rw [hread]
  exact ⟨congrArg Segment.track (value_bodyText he htrim), diagnostics_bodyText he htrim⟩

theorem not_blank_trackText (h : TrackText Blank Trimmed e s) : Text.allBlank s = false := by
  obtain ⟨n, b, -, -, rfl⟩ := h
  exact Text.allBlank_eq_false (c := ':') (by simp) (by decide)

theorem semicolon_not_mem_trackText (he : ProperEntry e) (h : TrackText Blank Trimmed e s) :
    ';' ∉ s := by
  obtain ⟨n, b, hn, hb, rfl⟩ := h
  rw [List.mem_append, List.mem_cons, not_or, not_or]
  refine ⟨hn.not_mem (he.name.free ';' (by decide)) (by decide), by decide, ?_⟩
  exact semicolon_not_mem_bodyText he hb

end

/-! ## Sources -/

section
variable {entries : List Entry}

theorem map_segments {β : Type} {f : List Char → β} {k : Entry → β} {source : List Char}
    (hp : ∀ e ∈ entries, ProperEntry e) (h : LaidOut entries source)
    (hf : ∀ e ∈ entries, ∀ p, TrackText Blank Trimmed e p → f p = k e) :
    (sourceSegments source).map f = entries.map k := by
  apply Spread.map_nonBlank (h.withoutComments hp) (by decide) _ hf
  intro e he p hpiece
  exact ⟨semicolon_not_mem_trackText (hp e he) hpiece, not_blank_trackText hpiece⟩

theorem scoreOf_tracks (tracks : List Track) :
    scoreOf (tracks.map .track) = .ofTracks Score.defaultTempo tracks := by
  have htempo : (tracks.map Segment.track).filterMap Segment.tempo? = [] := by
    rw [List.filterMap_map]
    exact List.filterMap_eq_nil_iff.mpr fun t _ => rfl
  have htracks : (tracks.map Segment.track).filterMap Segment.track? = tracks := by
    rw [List.filterMap_map]
    exact List.filterMap_some
  unfold scoreOf
  rw [htempo, htracks]
  rfl

/--
However proper entries are laid out, each is read as one track with the notes of the tokens that its
grammar accepts, and the diagnostics are those on the other tokens, in their order.
-/
theorem laid_out_entries_read_back (entries : List Entry) (source : String)
    (hp : ∀ e ∈ entries, ProperEntry e) (hl : LaidOut entries source.toList) :
    compile source = .ofTracks Score.defaultTempo (entries.map Entry.track) ∧
      (read source).diagnostics = entries.flatMap Entry.diagnostics := by
  constructor
  · have hsegments : (segments source.toList).value = (entries.map Entry.track).map .track := by
      rw [segments_eq, Reading.all, List.map_map, List.map_map]
      apply map_segments hp hl
      intro e he p hpiece
      exact (read_trackText (hp e he) hpiece).1
    show scoreOf (segments source.toList).value = _
    rw [hsegments, scoreOf_tracks]
  · show (readChars source.toList).diagnostics = _
    rw [diagnostics_source, List.flatMap_def, List.flatMap_def]
    apply congrArg List.flatten
    apply map_segments hp hl
    intro e he p hpiece
    exact (read_trackText (hp e he) hpiece).2

end

/-! ### A band -/

def bandEntries : List Entry :=
  [⟨"Piano".toList, [[["C4.1".toList, "E4.1".toList], ["H9".toList]], [["G4.2".toList]]]⟩,
    ⟨"DRUMS".toList, [[["kick".toList, "snare.0".toList]]]⟩]

def bandText : String :=
  "// low; high\r\nPiano: C4.1 + E4.1 ,, H9 | | G4.2 ; ;\nDRUMS // beats\n: kick + snare.0 // end"

theorem laidOut_band : LaidOut bandEntries bandText.toList := by
  have hspace : Gap [' '] := gap_of_blank rfl
  have hspaced : ∀ core : String, Padded core.toList ([' '] ++ (core.toList ++ [' '])) := by
    intro core
    exact ⟨[' '], [' '], hspace, hspace, rfl⟩
  have hcomment : ∀ t : String, '\n' ∉ t.toList → Gap ('/' :: '/' :: (t.toList ++ ['\n'])) := by
    intro t ht
    exact .comment ht .nil
  have hpiano : Padded "Piano".toList _ :=
    ⟨_, _, hcomment " low; high\r" (by decide), .nil, rfl⟩
  have hdrums : Padded "DRUMS".toList _ :=
    ⟨_, _, .blank (c := '\n') rfl .nil, .blank (c := ' ') rfl (hcomment " beats" (by decide)), rfl⟩
  have hchord : ChordText Padded [_, _] _ := .item_cons (hspaced "C4.1") (.item (hspaced "E4.1"))
  have hpattern : PatternText Gap Padded [_, _] _ :=
    .item_cons hchord (.gap_cons .nil (.item (.item (hspaced "H9"))))
  have hbody : BodyText Gap Padded [_, _] _ :=
    .item_cons hpattern (.gap_cons hspace (.item (.item (.item (hspaced "G4.2")))))
  have hbeats : BodyText Gap Padded [_] _ :=
    .item (.item (.item_cons (hspaced "kick") (.item (hspaced "snare.0"))))
  have htext : ScoreText Gap Padded bandEntries _ :=
    .item_cons ⟨_, _, hpiano, hbody, rfl⟩ (.gap_cons hspace (.item ⟨_, _, hdrums, hbeats, rfl⟩))
  exact ⟨_, "// end".toList, htext, .inr ⟨" end".toList, by decide, by decide⟩, by decide⟩

theorem laid_out_band_reads_back :
    (∀ e ∈ bandEntries, ProperEntry e) ∧ LaidOut bandEntries bandText.toList ∧
      (compile bandText).tracks.map
        (fun t => t.patterns.map fun p => p.chords.map (·.notes.length)) = [[[2, 0], [1]], [[1]]] ∧
      (read bandText).diagnostics =
        [⟨.unmatchedToken, "H9".toList⟩, ⟨.invalidDuration, "snare.0".toList⟩] := by
  have hp : ∀ e ∈ bandEntries, ProperEntry e := by decide
  obtain ⟨hc, hd⟩ := laid_out_entries_read_back bandEntries bandText hp laidOut_band
  refine ⟨hp, laidOut_band, ?_, ?_⟩
  · rw [hc]
    decide
  · rw [hd]
    decide

end ScoreSynth.Notation
