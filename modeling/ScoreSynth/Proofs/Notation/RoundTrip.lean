import ScoreSynth.Proofs.Notation.Reread
import ScoreSynth.Proofs.Notation.WellFormed

/-!
# Compiling what was written

A compiled score that is written and compiled again comes back without its empty parts. Only a name
with a carriage return in front of a line feed changes on the way, as reading takes such a pair for
one line end, and a duration too long for a double to tell its ticks apart.
-/

namespace ScoreSynth.Notation

section
variable {drums : Bool} {n : Note} {c : Chord} {p : Pattern} {t : Track} {s : Score}

/-! ## A compiled score has nothing to lose -/

theorem CompiledNote.reread_id (h : CompiledNote drums n) : n.reread id = n := by
  obtain ⟨pitch, duration, velocity⟩ := n
  obtain rfl : velocity = 1.0 := h.velocity
  rfl

theorem CompiledChord.reread_id (h : CompiledChord drums c) : c.reread id = c := by
  have hn : c.notes.map (Note.reread id) = c.notes :=
    Text.map_eq_self fun n hn => (h.notes n hn).reread_id
  rw [Chord.reread, hn]
  exact h.eq_ofNotes.symm

theorem reread_id_pattern (h : ∀ c ∈ p.chords, CompiledChord drums c) : p.reread id = p := by
  have hc : p.chords.map (Chord.reread id) = p.chords :=
    Text.map_eq_self fun c hc => (h c hc).reread_id
  rw [Pattern.reread, hc]

theorem CompiledTrack.reread_id (h : CompiledTrack t) : t.reread id = t := by
  have hp : t.patterns.map (Pattern.reread id) = t.patterns :=
    Text.map_eq_self fun p hp => reread_id_pattern (h.chords p hp)
  rw [Track.reread, hp]

theorem Compiled.reread_id (h : Compiled s) : s.reread id = s := by
  have ht : s.tracks.map (Track.reread id) = s.tracks :=
    Text.map_eq_self fun t ht => (h.tracks t ht).reread_id
  rw [Score.reread, ht]

theorem CompiledTrack.pruned (h : CompiledTrack t) : CompiledTrack t.pruned where
  name := h.name
  chords := by
    intro p hp c hc
    obtain ⟨⟨q, hq, rfl⟩, -⟩ := Track.mem_pruned.mp hp
    exact h.chords q hq c (Pattern.mem_pruned.mp hc).1

theorem Compiled.pruned (h : Compiled s) : Compiled s.pruned where
  tempo_pos := h.tempo_pos
  tempo_le := h.tempo_le
  tracks := by
    intro t ht
    obtain ⟨⟨u, hu, rfl⟩, -⟩ := Score.mem_pruned.mp ht
    exact (h.tracks u hu).pruned

theorem Compiled.compiledNote (h : Compiled s) (hn : n ∈ s.notes) : ∃ drums, CompiledNote drums n := by
  obtain ⟨c, hc, hnc⟩ := List.mem_flatMap.mp hn
  obtain ⟨t, ht, hct⟩ := List.mem_flatMap.mp hc
  exact ⟨_, ((h.tracks t ht).of_mem_chords hct).notes n hnc⟩

theorem Compiled.readable (h : Compiled s) {r : Beat → Beat}
    (hr : ∀ t ∈ s.pruned.tracks, Text.Apart '\r' '\n' t.instrument.toList)
    (hd : ∀ n ∈ s.notes, Beat.parse? n.duration.write = some (r n.duration) ∧
      0 < (r n.duration).ticks) : ReadableScore r s.pruned where
  tempo_pos := h.tempo_pos
  tempo_le := h.tempo_le
  tracks := by
    intro t ht
    have hct := h.pruned.tracks t ht
    obtain ⟨⟨u, hu, rfl⟩, hne⟩ := Score.mem_pruned.mp ht
    refine ⟨hct.name, hne, fun p hp => ⟨(Track.mem_pruned.mp hp).2, fun c hc => ?_⟩⟩
    obtain ⟨hcu, hcn⟩ := Track.mem_chords_of_mem_pruned hp hc
    refine ⟨hcn, fun n hn => ?_⟩
    have hmem : n ∈ s.notes :=
      List.mem_flatMap.mpr ⟨c, List.mem_flatMap.mpr ⟨u, hu, hcu⟩, hn⟩
    exact ⟨((hct.chords p hp c hc).notes n hn).fits, (hd n hmem).1, (hd n hmem).2⟩
  returns := hr

theorem Compiled.readable_pruned (h : Compiled s)
    (hr : ∀ t ∈ s.tracks, Text.Apart '\r' '\n' t.instrument.toList)
    (hd : ∀ n ∈ s.notes, Beat.parse? n.duration.write = some n.duration) :
    ReadableScore id s.pruned := by
  refine h.readable (fun t ht => ?_) fun n hn => ⟨hd n hn, ?_⟩
  · obtain ⟨⟨u, hu, rfl⟩, -⟩ := Score.mem_pruned.mp ht
    exact hr u hu
  · obtain ⟨_, hcompiled⟩ := h.compiledNote hn
    exact hcompiled.duration_pos

end

/--
What a compiled score is written as compiles to the same score without its empty parts, and nothing
in it is dropped.
-/
theorem compile_write_compile (source : String)
    (hr : ∀ t ∈ (compile source).tracks, ¬['\r', '\n'] <:+: t.instrument.toList)
    (hd : ∀ n ∈ (compile source).notes, n.duration.ticks < 2 ^ 51) :
    (read (write (compile source))).diagnostics = [] ∧
      (compile (write (compile source))).tempo = (compile source).tempo ∧
      (compile (write (compile source))).tracks = (compile source).pruned.tracks := by
  have hc := compiled_compile source
  have hread : read (write (compile source)) = ⟨(compile source).pruned, []⟩ := by
    have h := readChars_writeChars (hc.readable_pruned
      (fun t ht => Text.apart_iff.mpr (hr t ht)) fun n hn => Beat.parse?_write (hd n hn))
    rwa [hc.pruned.reread_id, ← String.toList_ofList (l := writeChars _)] at h
  unfold compile at hread ⊢
  rw [hread]
  exact ⟨rfl, rfl, rfl⟩

theorem compile_write_compile_melody :
    let score := compile "tempo:90;a|b+c:c#4.0.001+D4.1,,|;drums:KICK.2.5"
    (∀ t ∈ score.tracks, ¬['\r', '\n'] <:+: t.instrument.toList) ∧
      (∀ n ∈ score.notes, n.duration.ticks < 2 ^ 51) ∧
      (read (write score)).diagnostics = [] ∧
      (compile (write score)).tempo = score.tempo ∧
      (compile (write score)).tracks = score.pruned.tracks :=
  ⟨by decide, by decide, compile_write_compile _ (by decide) (by decide)⟩

end ScoreSynth.Notation
