import ScoreSynth.Proofs.Beat.Grammar
import ScoreSynth.Proofs.Notation.Readings
import ScoreSynth.Proofs.Text.Pieces
import ScoreSynth.Proofs.Text.Trim

/-!
# Drum tokens

A drum token whose length is zero is dropped with a report. One without a length, or with something
else in the place of a length, lasts one beat; a sign before a length makes it something else.
-/

namespace ScoreSynth.Notation

/-- In a track of this name the token is refused, its chord is what it would be without the token,
and the report reaches the track. -/
structure Dropped (name token : List Char) (d : Diagnostic) : Prop where
  refused : Token.note (isDrumInstrument name) token = .error d
  unheard : ∀ text ps qs, text.splitOn '+' = ps ++ token :: qs →
    (chord (isDrumInstrument name) text).value =
      .ofNotes ((ps ++ qs).filterMap (accepted (isDrumInstrument name)))
  reported : ∀ body, ∀ measure ∈ body.splitOn '|', ∀ piece ∈ measure.splitOn ',',
    token ∈ piece.splitOn '+' → d ∈ (track name body).diagnostics

/-! ## Refused tokens -/

section
variable {name token : List Char} {d : Diagnostic}

theorem mem_nonBlank_splitOn {sep : Char} {s l p : List Char} (hl : l ∈ s.splitOn sep)
    (hp : p <:+: l) (hb : Text.allBlank p = false) : l ∈ nonBlank (s.splitOn sep) := by
  obtain ⟨a, b, rfl⟩ := hp
  refine List.mem_filter.mpr ⟨hl, ?_⟩
  simp [Text.allBlank_append, hb]

/-- What is refused is dropped, in any track. -/
theorem dropped_of_error (h : Token.note (isDrumInstrument name) token = .error d)
    (hb : Text.allBlank token = false) : Dropped name token d where
  refused := h
  unheard text ps qs hs := by
    have hnone : accepted (isDrumInstrument name) token = none := by
      unfold accepted
      rw [h]
    rw [value_chord, hs, List.filterMap_append, List.filterMap_cons_none hnone,
      List.filterMap_append]
  reported body measure hm piece hp ht := by
    have hsome : refused (isDrumInstrument name) token = some d := by
      unfold Notation.refused
      rw [h]
    have hpiece := Text.infix_of_mem_splitOn ht
    have hmeasure := hpiece.trans (Text.infix_of_mem_splitOn hp)
    rw [diagnostics_track, List.mem_flatMap]
    refine ⟨measure, mem_nonBlank_splitOn hm hmeasure hb, ?_⟩
    rw [diagnostics_pattern, List.mem_flatMap]
    refine ⟨piece, mem_nonBlank_splitOn hp hpiece hb, ?_⟩
    rw [diagnostics_chord]
    exact List.mem_filterMap.mpr ⟨token, ht, hsome⟩

end

/-! ## Codes and lengths -/

section
variable {code token d : List Char} (hne : code ≠ [])
  (hcode : ∀ c ∈ code, Token.isCodeChar c = true)
include hne hcode

theorem drumNote_bare (h : Text.trim token = code) :
    Token.drumNote token = .ok (.drum code .one) := by
  have hdot : '.' ∉ code := fun hc => absurd (hcode '.' hc) (by decide)
  have hok : (code.isEmpty || !code.all Token.isCodeChar) = false := by
    simpa [hne] using hcode
  unfold Token.drumNote Token.drumParts
  simp only [h, Text.cut_eq_none_iff.mpr hdot, hok]
  rfl

theorem drumNote_pointed (h : Text.trim token = code ++ '.' :: d) : Token.drumNote token =
    if ((Beat.parse? d).getD .one).isZero then .error ⟨.invalidDuration, code ++ '.' :: d⟩
    else .ok (.drum code ((Beat.parse? d).getD .one)) := by
  have hdot : '.' ∉ code := fun hc => absurd (hcode '.' hc) (by decide)
  have hok : (code.isEmpty || !code.all Token.isCodeChar) = false := by
    simpa [hne] using hcode
  have hon : Diagnostic.on .invalidDuration (code ++ '.' :: d) =
      ⟨.invalidDuration, code ++ '.' :: d⟩ := by
    rw [Diagnostic.on, ← h, Text.trim_trim]
  unfold Token.drumNote Token.drumParts
  simp only [h, Text.cut_append_cons hdot, hok, hon, Option.bind_some]
  rfl

end

/-- A length that comes to no tick drops the token. What is no length, or none that fits, makes it
last one beat, and so does a missing length. -/
theorem zero_drum_lengths_dropped {name code : List Char} (hname : isDrumInstrument name = true)
    (hne : code ≠ []) (hcode : ∀ c ∈ code, Token.isCodeChar c = true) :
    (∀ token d v, Text.trim token = code ++ '.' :: d → Beat.Notated d v → v < 1 / 1920 →
      Dropped name token ⟨.invalidDuration, code ++ '.' :: d⟩) ∧
    (∀ token d v, Text.trim token = code ++ '.' :: d → Beat.Notated d v →
      1 / 1920 ≤ v → ⌊v * 960 + 1 / 2⌋₊ ≤ 2 ^ 64 - 1 →
      ∃ b : Beat, b.ticks = ⌊v * 960 + 1 / 2⌋₊ ∧
        Token.note (isDrumInstrument name) token = .ok (.drum code b)) ∧
    (∀ token d, Text.trim token = code ++ '.' :: d →
      (¬∃ v, Beat.Notated d v ∧ ⌊v * 960 + 1 / 2⌋₊ ≤ 2 ^ 64 - 1) →
      Token.note (isDrumInstrument name) token = .ok (.drum code .one)) ∧
    (∀ token, Text.trim token = code →
      Token.note (isDrumInstrument name) token = .ok (.drum code .one)) := by
  have hdrum (token : List Char) :
      Token.note (isDrumInstrument name) token = Token.drumNote token := by
    rw [hname]
    rfl
  refine ⟨?_, ?_, ?_, ?_⟩
  · intro token d v ht hv hz
    have hp : Beat.parse? d = some .zero := by
      rw [hv.parse?_eq, Nat.floor_eq_zero.mpr (by linarith)]
      rfl
    apply dropped_of_error
    · rw [hdrum, drumNote_pointed hne hcode ht, hp]
      rfl
    · have hdot : '.' ∈ Text.trim token := by
        rw [ht]
        simp
      exact Text.allBlank_eq_false ((Text.trim_isInfix token).subset hdot) (by decide)
  · intro token d v ht hv hlow hle
    have hp : Beat.parse? d = some ⟨_, hle⟩ :=
      Beat.parse?_eq_some_iff.mpr ⟨v, hv, hle, rfl⟩
    refine ⟨⟨_, hle⟩, rfl, ?_⟩
    rw [hdrum, drumNote_pointed hne hcode ht, hp, Option.getD_some, if_neg]
    rw [Beat.isZero_iff]
    exact (Nat.floor_pos.mpr (by linarith)).ne'
  · intro token d ht hnot
    rw [hdrum, drumNote_pointed hne hcode ht, Beat.parse?_eq_none_iff.mpr hnot]
    rfl
  · intro token ht
    rw [hdrum, drumNote_bare hne hcode ht]

theorem zero_drum_lengths_dropped_kick :
    Dropped "drums".toList "k.0".toList ⟨.invalidDuration, "k.0".toList⟩ ∧
      Token.note (isDrumInstrument "drums".toList) "k.fast".toList = .ok (.drum ['k'] .one) ∧
      Token.note (isDrumInstrument "drums".toList) "k".toList = .ok (.drum ['k'] .one) := by
  have hname : isDrumInstrument "drums".toList = true := by decide
  have hne : ['k'] ≠ [] := by decide
  have hcode : ∀ c ∈ ['k'], Token.isCodeChar c = true :=
    List.forall_mem_singleton.mpr (by decide)
  have hzero : Beat.Notated ['0'] (Number.digitsValue ['0']) :=
    .whole (by decide) (List.forall_mem_singleton.mpr (by decide))
  have hfast := Beat.parse?_eq_none_iff.mp (by decide : Beat.parse? "fast".toList = none)
  obtain ⟨hdropped, -, hassumed, hbare⟩ := zero_drum_lengths_dropped hname hne hcode
  refine ⟨hdropped _ ['0'] _ (by decide) hzero ?_, hassumed _ "fast".toList (by decide) hfast,
    hbare _ (by decide)⟩
  norm_num [Number.digitsValue, Number.digitValue]

/-- A negative length is no length, so it is not dropped. -/
theorem negative_drum_length_sounds :
    (track "drums".toList "k.-1".toList).diagnostics = [] ∧
      (track "drums".toList "k.-1".toList).value.patterns =
        [⟨[.ofNotes [.drum ['k'] .one]]⟩] :=
  ⟨by decide, by rfl⟩

end ScoreSynth.Notation
