import ScoreSynth.Proofs.Output.Desk
import ScoreSynth.Proofs.Output.Following

/-!
# The window of a tone

Each tone is heard from the frame at which it falls due until its stop, once, and in a voice of its
own that starts there.
-/

namespace ScoreSynth.Output

/-- Seeds can be named once for a whole run, so a tone keeps one voice through all its frames. -/
theorem exists_seeds (rate channels : Nat) (seed : UInt64) (calls : List Call) :
    ∃ seeds : Nat → UInt64, ∀ before size, before ++ [.fill size] <+: calls →
      ∀ i < framesIn (max channels 1) size,
        ((((Mixer.start rate channels seed).performAll before).after i).sounds).Perm
          (((Timeline.start rate channels).performAll before).heard seeds
            (((Timeline.start rate channels).performAll before).frame + i)) := by
  obtain ⟨p, hf, hs⟩ := follows_performAll rate channels seed calls
  have hd : (p.left.map (·.number)).Nodup :=
    hf.distinct.sublist ((List.sublist_append_left _ _).map _)
  obtain ⟨seeds, ha⟩ := exists_agrees seed hd
  exact ⟨seeds, hs seeds ha⟩

theorem performAll_start_follows (rate channels : Nat) (seed : UInt64) (calls : List Call) :
    ∃ p, Follows seed p ((Mixer.start rate channels seed).performAll calls)
      ((Timeline.start rate channels).performAll calls) := by
  obtain ⟨p, hf, _⟩ := follows_performAll rate channels seed calls
  exact ⟨p, hf⟩

theorem channels_pos (channels : Nat) : 0 < max channels 1 :=
  Nat.lt_of_lt_of_le Nat.zero_lt_one (Nat.le_max_right _ _)

theorem channels_performAll_start (rate channels : Nat) (seed : UInt64) (calls : List Call) :
    ((Mixer.start rate channels seed).performAll calls).channels = max channels 1 := by
  obtain ⟨p, hf⟩ := performAll_start_follows rate channels seed calls
  exact hf.channels.trans (Timeline.performAll_format _ calls).2

/-- The value at each place of a block, of a mixer of which something was asked before. -/
theorem getElem?_block (rate channels : Nat) (seed : UInt64) (before : List Call) {i size : Nat}
    (hi : i < size) :
    (((Mixer.start rate channels seed).performAll before).fill size).1[i]? =
      some (mixed (((Mixer.start rate channels seed).performAll before).after
          (i / max channels 1)).sounds
        ((Timeline.start rate channels).performAll before).volume) := by
  obtain ⟨p, hf⟩ := performAll_start_follows rate channels seed before
  have hch := channels_performAll_start rate channels seed before
  rw [Mixer.getElem?_fill (hch ▸ channels_pos channels) hi, hch, hf.volume]

/--
Whatever is asked of a mixer, each value of a block is the mix of one sample for each tone that came
since the last clearing and whose window holds the frame: the sample its own voice has that many
frames after the tone fell due. A batch holds the windows of its tones, and a desk of which the same
is asked stands where the mixer stands.
-/
theorem tones_heard_in_their_windows (rate channels : Nat) (seed : UInt64) (calls : List Call) :
    (∃ seeds : Nat → UInt64, ∀ before size, before ++ [.fill size] <+: calls →
      let m := (Mixer.start rate channels seed).performAll before
      let t := (Timeline.start rate channels).performAll before
      m.frame = t.frame ∧ (m.fill size).1.size = size ∧
        (∀ i < size,
          ((m.after (i / max channels 1)).sounds).Perm
              (t.heard seeds (t.frame + i / max channels 1)) ∧
            (m.fill size).1[i]? =
              some (mixed (m.after (i / max channels 1)).sounds t.volume)) ∧
        ∀ requests, requests.map Request.call = before →
          ((Desk.start rate channels seed).performAll requests).Mirrors m) ∧
      ∀ cs ownRate,
        (Batch.ofCommands cs ownRate).entries.Perm (cs.map (windowed (max ownRate 1))) := by
  obtain ⟨seeds, hs⟩ := exists_seeds rate channels seed calls
  refine ⟨⟨seeds, fun before size hb => ?_⟩, Batch.perm_windowed⟩
  obtain ⟨p, hf⟩ := performAll_start_follows rate channels seed before
  refine ⟨hf.frame, Mixer.size_fill _ _, fun i hi => ⟨?_, ?_⟩, fun requests hrequests => ?_⟩
  · exact hs before size hb _ (div_lt_framesIn (channels_pos channels) hi)
  · exact getElem?_block rate channels seed before hi
  · rw [← hrequests]
    exact Desk.mirrors_performAll rate channels seed requests

end ScoreSynth.Output
