import ScoreSynth.Proofs.Beat.Quotients
import ScoreSynth.Proofs.Notation.RoundTrip

/-!
# What is written stays as it is

A compiled score is written as a text that, compiled and written again, is the same text, as long as
no written name has a carriage return in front of a line feed and every written length reads as one
that is written alike. Lengths of whole beats do, and all below 2^51 ticks.
-/

namespace ScoreSynth

namespace Beat

def Settled (b : Beat) : Prop := ∃ b' ∈ parse? b.write, b'.write = b.write

instance (b : Beat) : Decidable b.Settled :=
  inferInstanceAs (Decidable (∃ b' ∈ parse? b.write, b'.write = b.write))

section
variable {b : Beat}

theorem settled_of_lt (h : b.ticks < 2 ^ 51) : b.Settled := ⟨b, parse?_write h, rfl⟩

theorem settled_of_whole (h : b.ticks % perBeat = 0) : b.Settled :=
  ⟨b, parse?_write_of_whole h, rfl⟩

open Number in
/-- No length but none at all is written as zero. -/
theorem write_ne_zero (h : 0 < b.ticks) : b.write ≠ ['0'] := by
  intro hz
  unfold write at hz
  split at hz
  · rename_i hm
    have hq : b.ticks / perBeat = 0 := by
      rw [← digitsValue_decimalText (b.ticks / perBeat), hz]
      rfl
    have := Nat.div_add_mod b.ticks perBeat
    rw [hq, hm] at this
    omega
  · obtain ⟨d, k, hs, hd, -⟩ := Binary.shortest_spec .double true (quotient_ordinary h)
    have hne := Binary.digits_ofDecimal_ne_nil hd k
    have hpos : b.quotient.significand ≠ 0 := (quotient_ordinary h).pos.ne'
    have hwrite : Layout.plain.writeBinary .double b.quotient =
        numeral (Binary.ofDecimal d k).whole (Binary.ofDecimal d k).fraction := by
      rw [← Layout.writePositional_eq hne, ← hs, Layout.writeBinary, if_neg hpos]
      rfl
    have hvalue : ((Binary.ofDecimal d k).value : ℚ) ≠ 0 := by
      rw [Binary.value_ofDecimal]
      exact mul_ne_zero (by exact_mod_cast hd) (ten_zpow_pos k).ne'
    rw [hwrite, numeral_eq] at hz
    split at hz
    · rename_i hf
      rw [List.append_nil] at hz
      rw [Digits.value_eq, hz, hf] at hvalue
      exact hvalue (by simp [digitsValue, digitValue])
    · have hlen := congrArg List.length hz
      have hw := List.length_pos_iff.mpr (Digits.whole_ne_nil hne)
      simp only [List.length_append, List.length_cons, List.length_nil] at hlen
      omega

theorem Settled.ticks_pos (h : 0 < b.ticks) {b' : Beat} (hb : b'.write = b.write) :
    0 < b'.ticks := by
  rcases Nat.eq_zero_or_pos b'.ticks with h0 | hpos
  · rw [show b' = zero from ext_ticks h0] at hb
    exact absurd hb.symm (write_ne_zero h)
  · exact hpos

end

end Beat

namespace Notation

section
variable {r : Beat → Beat} {s : Score}

theorem writeNote_reread {n : Note} (h : (r n.duration).write = n.duration.write) :
    writeNote (n.reread r) = writeNote n := by
  unfold writeNote Note.reread
  rw [h]

/-- Lengths that are written alike change nothing in the text. -/
theorem writeChars_reread (h : ∀ n ∈ s.notes, (r n.duration).write = n.duration.write) :
    writeChars (s.reread r) = writeChars s := by
  refine writeChars_map fun t ht => writeTrack_map fun p hp => writePattern_map fun c hc => ?_
  have hmem : c ∈ s.tracks.flatMap Track.chords :=
    List.mem_flatMap.mpr ⟨t, ht, List.mem_flatMap.mpr ⟨p, hp, hc⟩⟩
  refine ⟨by simp [Chord.isEmpty, Chord.reread, Chord.ofNotes], writeChord_map (fun n hn => ?_) _ _⟩
  exact writeNote_reread (h n (List.mem_flatMap.mpr ⟨c, hmem, hn⟩))

theorem mem_notes_of_mem_pruned {n : Note} (h : n ∈ s.pruned.notes) : n ∈ s.notes := by
  obtain ⟨c, hc, hn⟩ := List.mem_flatMap.mp h
  obtain ⟨t, ht, hct⟩ := List.mem_flatMap.mp hc
  obtain ⟨⟨u, hu, rfl⟩, -⟩ := Score.mem_pruned.mp ht
  obtain ⟨p, hp, hcp⟩ := List.mem_flatMap.mp hct
  have hcu := (Track.mem_chords_of_mem_pruned hp hcp).1
  exact List.mem_flatMap.mpr ⟨c, List.mem_flatMap.mpr ⟨u, hu, hcu⟩, hn⟩

end

/-- A source is written in one way, whichever of its written forms is compiled. -/
theorem write_compile_write (source : String)
    (hr : ∀ t ∈ (compile source).pruned.tracks, ¬['\r', '\n'] <:+: t.instrument.toList)
    (hd : ∀ n ∈ (compile source).notes, n.duration.Settled) :
    write (compile (write (compile source))) = write (compile source) := by
  have hc := compiled_compile source
  -- what each written length reads as
  let r : Beat → Beat := fun b => (Beat.parse? b.write).getD b
  have hsettled : ∀ n ∈ (compile source).notes,
      Beat.parse? n.duration.write = some (r n.duration) ∧
        (r n.duration).write = n.duration.write := by
    intro n hn
    obtain ⟨b, hb, hw⟩ := hd n hn
    have hrb : r n.duration = b := by
      show (Beat.parse? n.duration.write).getD n.duration = b
      rw [hb, Option.getD_some]
    rw [hrb]
    exact ⟨hb, hw⟩
  have hreadable : ReadableScore r (compile source).pruned := by
    refine hc.readable (fun t ht => Text.apart_iff.mpr (hr t ht)) fun n hn => ?_
    obtain ⟨_, hcompiled⟩ := hc.compiledNote hn
    exact ⟨(hsettled n hn).1, Beat.Settled.ticks_pos hcompiled.duration_pos (hsettled n hn).2⟩
  have hcompile : compile (write (compile source)) = (compile source).pruned.reread r := by
    have h := congrArg Reading.value (readChars_writeChars hreadable)
    rwa [← String.toList_ofList (l := writeChars _)] at h
  unfold write at hcompile ⊢
  rw [hcompile, writeChars_reread fun n hn => (hsettled n (mem_notes_of_mem_pruned hn)).2,
    writeChars_pruned]

theorem write_compile_write_melody :
    let source := "tempo:90;a|b+c:c#4.0.001+D4.1,,|;\rx\n:C4.18446744073709440|;drums:KICK.2.5"
    (∀ t ∈ (compile source).pruned.tracks, ¬['\r', '\n'] <:+: t.instrument.toList) ∧
      (∀ n ∈ (compile source).notes, n.duration.Settled) ∧
      write (compile (write (compile source))) = write (compile source) :=
  ⟨by decide +kernel, by decide +kernel,
    write_compile_write _ (by decide +kernel) (by decide +kernel)⟩

/-- Line ends are taken off a name one by one, and a long length moves each time it is written. -/
theorem write_compile_write_moves :
    write (compile (write (compile "a\r\r\nb:C4.1;"))) ≠ write (compile "a\r\r\nb:C4.1;") ∧
      write (compile (write (compile "a:C4.4419963280326.1845;"))) ≠
        write (compile "a:C4.4419963280326.1845;") := by
  decide +kernel

end Notation

end ScoreSynth
