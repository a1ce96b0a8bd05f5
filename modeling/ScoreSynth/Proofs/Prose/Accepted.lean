import ScoreSynth.Proofs.Notation.RoundTrip
import ScoreSynth.Proofs.Prose.Shapes
import ScoreSynth.Proofs.Text.Trim

/-!
# Written music is accepted

A written score begins with a label, ends with a semicolon and holds the text of each of its notes, so
one melodic note is enough to pass the test for generated text. Nothing in it is taken for a fence or
trimmed, and a fence around it is taken away without loss.
-/

namespace ScoreSynth

namespace Notation

/-! ## Where a written note stands -/

theorem infix_writtenSegments {s : Score} {l : List Char} (hl : l ∈ writtenSegments s.pruned) :
    l <:+: writeChars s := by
  rw [writeChars_eq]
  exact Text.infix_intercalate ';' (List.mem_append_left _ hl)

/-- Each note of a score is written somewhere in its text. -/
theorem writeNote_isInfix {s : Score} {n : Note} (hn : n ∈ s.notes) :
    writeNote n <:+: writeChars s := by
  obtain ⟨c, hc, hnc⟩ := List.mem_flatMap.mp hn
  obtain ⟨t, ht, hct⟩ := List.mem_flatMap.mp hc
  obtain ⟨p, hp, hcp⟩ := List.mem_flatMap.mp hct
  have hchord : c ∈ p.pruned.chords := Pattern.mem_pruned.mpr ⟨hcp, List.ne_nil_of_mem hnc⟩
  have hpattern : p.pruned ∈ t.pruned.patterns :=
    Track.mem_pruned.mpr ⟨⟨p, hp, rfl⟩, List.ne_nil_of_mem hchord⟩
  have htrack : t.pruned ∈ s.pruned.tracks :=
    Score.mem_pruned.mpr ⟨⟨t, ht, rfl⟩, List.ne_nil_of_mem hpattern⟩
  have hbody : writtenBody t.pruned <:+: trackSegment t.pruned :=
    ⟨'\n' :: (t.pruned.instrument.toList ++ [':']), [], by simp [trackSegment]⟩
  calc writeNote n
    _ <:+: writeChord c := Text.infix_intercalate '+' (List.mem_map_of_mem hnc)
    _ <:+: writtenPattern p.pruned := Text.infix_intercalate ',' (List.mem_map_of_mem hchord)
    _ <:+: writtenBody t.pruned := Text.infix_intercalate '|' (List.mem_map_of_mem hpattern)
    _ <:+: trackSegment t.pruned := hbody
    _ <:+: writeChars s :=
      infix_writtenSegments (List.mem_cons_of_mem _ (List.mem_map_of_mem htrack))

theorem writeChars_eq_append (s : Score) : ∃ rest, writeChars s = "tempo:".toList ++ rest := by
  unfold writeChars writeTempo
  exact ⟨_, List.append_assoc _ _ _⟩

theorem tight_writeChars (s : Score) : Text.Tight (writeChars s) := by
  constructor
  · obtain ⟨rest, hs⟩ := writeChars_eq_append s
    rw [hs]
    intro c hc
    obtain rfl : 't' = c := Option.some.inj hc
    rfl
  · rw [getLast?_writeChars]
    intro c hc
    obtain rfl := Option.some.inj hc
    rfl

end Notation

namespace Prose

open Notation

/-! ## The test -/

theorem hasLabel_writeChars (s : Score) : hasLabel (writeChars s) = true := by
  obtain ⟨rest, hs⟩ := writeChars_eq_append s
  rw [hs]
  rfl

theorem looksLikeScore_writeChars {s : Score} {n : Note} (hn : n ∈ s.notes) {p : PitchClass}
    {octave : Int} (hp : n.pitch = .melodic p octave) (h0 : 0 ≤ octave) :
    looksLikeScore (writeChars s) = true := by
  have hsemicolon : ';' ∈ writeChars s := List.mem_of_getLast? (getLast?_writeChars s)
  obtain ⟨w, hw, hpre⟩ := shape_writeNote hp h0
  have hnote : hasNote (writeChars s) = true :=
    hasNote_iff.mpr ⟨w, hw, hpre.isInfix.trans (writeNote_isInfix hn)⟩
  unfold looksLikeScore
  rw [hasLabel_writeChars, hnote, List.contains_iff_mem.mpr hsemicolon]
  rfl

/-! ## Blanks and fences -/

theorem enclosed_of_tight {text : List Char} (ht : Text.Tight text) (hf : ¬fence <+: text) :
    enclosed (String.ofList text) = text := by
  unfold enclosed withoutFence
  rw [String.toList_ofList, ht.trim_eq, if_neg (by simpa using hf)]

def fenced (info body : List Char) : List Char :=
  fence ++ (info ++ '\n' :: (body ++ '\n' :: fence))

theorem tight_fenced (info body : List Char) : Text.Tight (fenced info body) := by
  have hfirst : (fenced info body).head? = some (Char.ofNat 0x60) := rfl
  have hlast : (fenced info body).getLast? = some (Char.ofNat 0x60) := by
    have hend : fenced info body = (fence ++ info ++ '\n' :: body ++ ['\n']) ++ fence := by
      simp [fenced]
    rw [hend, List.getLast?_append]
    rfl
  constructor
  · intro c hc
    obtain rfl := Option.some.inj (hfirst.symm.trans hc)
    decide
  · intro c hc
    obtain rfl := Option.some.inj (hlast.symm.trans hc)
    decide

theorem withoutFence_fenced {info : List Char} (hinfo : '\n' ∉ info) (body : List Char) :
    withoutFence (fenced info body) = Text.trim body := by
  have hopen : fence <+: fenced info body := List.prefix_append _ _
  have hcut : Text.cut '\n' ((fenced info body).drop fence.length) =
      some (info, body ++ '\n' :: fence) := by
    unfold fenced
    rw [List.drop_left, Text.cut_append_cons hinfo]
  have hclose : body ++ '\n' :: fence = (body ++ ['\n']) ++ fence := by simp
  have hended : Text.trimRight (body ++ '\n' :: fence) = body ++ '\n' :: fence := by
    refine Text.trimRight_eq_self ?_
    rw [hclose, List.getLast?_append]
    intro c hc
    obtain rfl : Char.ofNat 0x60 = c := Option.some.inj hc
    decide
  have hsuffix : fence.isSuffixOf (body ++ '\n' :: fence) = true :=
    List.isSuffixOf_iff_suffix.mpr (hclose ▸ List.suffix_append _ _)
  unfold withoutFence
  rw [if_pos (List.isPrefixOf_iff_prefix.mpr hopen), hcut]
  simp only [hended, hsuffix, if_true]
  rw [hclose, List.length_append, Nat.add_sub_cancel, List.take_left]
  exact Text.trim_append_of_blank body rfl

theorem enclosed_fenced {before after info : List Char} (hb : Text.allBlank before = true)
    (ha : Text.allBlank after = true) (hinfo : '\n' ∉ info) (body : List Char) :
    enclosed (String.ofList (before ++ (fenced info body ++ after))) = Text.trim body := by
  unfold enclosed
  rw [String.toList_ofList, Text.trim_prepend_of_blank hb, Text.trim_append_of_blank _ ha,
    (tight_fenced info body).trim_eq, withoutFence_fenced hinfo]

/-! ## Acceptance -/

section
variable {g : String} {text : List Char}

theorem accept?_of_enclosed (he : enclosed g = text) (h : looksLikeScore text = true) :
    accept? g = some (readChars text) := by
  unfold accept? isAcceptable
  rw [he, if_pos h]

theorem written_of_enclosed (he : enclosed g = text) (h : looksLikeScore text = true)
    (prose : String) : written (some g) prose = String.ofList text := by
  unfold written
  rw [Option.bind_some, accept?_of_enclosed he h, he]
  rfl

end

/--
What is written of a score with a melodic note passes as generated text, and is taken as it stands
whatever the prose. A fence with any name of a language and blanks around it make no difference.
-/
theorem written_score_accepted (source : String)
    (h : ∃ n ∈ (compile source).notes, ∃ p octave, n.pitch = .melodic p octave) :
    let text := write (compile source)
    looksLikeScore text.toList = true ∧
      (accept? text).map (·.value) = some (compile text) ∧
      (∀ prose, written (some text) prose = text) ∧
      ∀ before info after : List Char, Text.allBlank before = true → '\n' ∉ info →
        Text.allBlank after = true →
        let wrapped := String.ofList (before ++ (fenced info text.toList ++ after))
        (accept? wrapped).map (·.value) = some (compile text) ∧
          ∀ prose, written (some wrapped) prose = text := by
  obtain ⟨n, hn, p, octave, hp⟩ := h
  obtain ⟨drums, hcompiled⟩ := (compiled_compile source).compiledNote hn
  have hfits := hcompiled.fits
  rw [hp] at hfits
  obtain ⟨-, h0, -⟩ := hfits
  intro text
  have htext : text.toList = writeChars (compile source) := String.toList_ofList
  have hcompile : compile text = (readChars (writeChars (compile source))).value :=
    congrArg (fun cs => (readChars cs).value) htext
  have hlooks := looksLikeScore_writeChars hn hp h0
  have htight := tight_writeChars (compile source)
  -- the text begins with the letter of a label, so it is no fence
  have hfence : ¬fence <+: writeChars (compile source) := by
    obtain ⟨rest, hs⟩ := writeChars_eq_append (compile source)
    rw [hs]
    intro hf
    cases (List.cons_prefix_cons.mp hf).1
  have hbare : enclosed text = writeChars (compile source) := enclosed_of_tight htight hfence
  refine ⟨htext ▸ hlooks, ?_, written_of_enclosed hbare hlooks, ?_⟩
  · rw [accept?_of_enclosed hbare hlooks, hcompile]
    rfl
  · intro before info after hb hinfo ha wrapped
    have hwrapped : enclosed wrapped = writeChars (compile source) := by
      show enclosed (String.ofList (before ++ (fenced info text.toList ++ after))) = _
      rw [enclosed_fenced hb ha hinfo, htext, htight.trim_eq]
    refine ⟨?_, written_of_enclosed hwrapped hlooks⟩
    rw [accept?_of_enclosed hwrapped hlooks, hcompile]
    rfl

theorem written_score_accepted_chord :
    let source := "drums:KICK.1;a b:c10.1+Cb4.0.5,;"
    (∃ n ∈ (compile source).notes, ∃ p octave, n.pitch = .melodic p octave) ∧
      (accept? (write (compile source))).map (·.value) = some (compile (write (compile source))) :=
  have h : ∃ n ∈ (compile "drums:KICK.1;a b:c10.1+Cb4.0.5,;").notes, ∃ p octave,
      n.pitch = .melodic p octave := ⟨.melodic .b 3 .half, by decide, .b, 3, rfl⟩
  ⟨h, (written_score_accepted _ h).2.1⟩

end Prose

end ScoreSynth
