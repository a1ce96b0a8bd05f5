import ScoreSynth.Proofs.Output.Desk
import ScoreSynth.Proofs.Output.Window

/-!
# Tones in batches

Tones that are scheduled one batch after the other, with nothing rendered in between, leave the queue
that they would leave all at once.
-/

namespace ScoreSynth.Output

namespace Mixer

theorem inOrder_queue (rate channels : Nat) (seed : UInt64) (calls : List Call) :
    InOrder ((Mixer.start rate channels seed).performAll calls).queue := by
  obtain ⟨p, hf⟩ := performAll_start_follows rate channels seed calls
  rw [hf.queue]
  exact List.pairwise_map.mpr hf.sorted

theorem schedule_queue (m : Mixer) (cs : List (Command Float)) :
    (m.schedule cs).queue =
      sortByStart ((cs.map (Entry.ofCommand (max m.rate 1))).reverse ++ m.queue) :=
  sortByStart_sortByStart_append _ _

theorem schedule_nil {m : Mixer} (h : InOrder m.queue) : m.schedule [] = m := by
  have hqueue : (m.schedule []).queue = m.queue := by
    rw [schedule_queue]; exact h.sortByStart
  rw [show m.schedule [] = { m with queue := (m.schedule []).queue } from rfl, hqueue]

theorem schedule_append (m : Mixer) (cs cs' : List (Command Float)) :
    m.schedule (cs ++ cs') = (m.schedule cs).schedule cs' := by
  have hqueue : (m.schedule (cs ++ cs')).queue = ((m.schedule cs).schedule cs').queue := by
    rw [schedule_queue, schedule_queue, schedule_queue, sortByStart_append_sortByStart,
      List.map_append, List.reverse_append, List.append_assoc]
    rfl
  rw [show m.schedule (cs ++ cs') = { m with queue := (m.schedule (cs ++ cs')).queue } from rfl,
    hqueue]
  rfl

theorem foldl_schedule {m : Mixer} (h : InOrder m.queue) (parts : List (List (Command Float))) :
    parts.foldl Mixer.schedule m = m.schedule parts.flatten := by
  induction parts generalizing m with
  | nil => exact (schedule_nil h).symm
  | cons cs parts ih =>
    rw [List.foldl_cons, List.flatten_cons, schedule_append]
    apply ih
    rw [schedule_queue]
    exact inOrder_sortByStart _

end Mixer

namespace Desk

theorem schedule_view (room : Nat) (d : Desk) (cs : List (Command Float)) :
    (d.schedule room cs).view = d.view.schedule cs :=
  enqueue_view room d cs d.mixer.rate

theorem foldl_schedule_view (d : Desk) (parts : List (Nat × List (Command Float))) :
    (parts.foldl (fun d p => d.schedule p.1 p.2) d).view =
      (parts.map (·.2)).foldl Mixer.schedule d.view := by
  induction parts generalizing d with
  | nil => rfl
  | cons p parts ih => rw [List.foldl_cons, ih, schedule_view]; rfl

theorem foldl_schedule_mixer (d : Desk) (parts : List (Nat × List (Command Float))) :
    (parts.foldl (fun d p => d.schedule p.1 p.2) d).mixer = d.mixer := by
  induction parts generalizing d with
  | nil => rfl
  | cons p parts ih => rw [List.foldl_cons, ih, schedule, enqueue_mixer]

end Desk

/--
Whatever was asked before, and whatever room there is when a batch comes: tones given in parts leave
the desk, and the mixer that it is, as the same tones given at once do, the queue included, so all
that is asked later sounds the same.
-/
theorem parts_scheduled_as_one (rate channels : Nat) (seed : UInt64) (before : List Request)
    (parts : List (Nat × List (Command Float))) (room : Nat) :
    let d := (Desk.start rate channels seed).performAll before
    let m := (Mixer.start rate channels seed).performAll (before.map Request.call)
    let apart := parts.foldl (fun d p => d.schedule p.1 p.2) d
    let atOnce := d.schedule room (parts.map (·.2)).flatten
    (parts.map (·.2)).foldl Mixer.schedule m = m.schedule (parts.map (·.2)).flatten ∧
      atOnce.view = m.schedule (parts.map (·.2)).flatten ∧
      apart.pending = atOnce.pending ∧ apart.mixer = atOnce.mixer ∧
      ∀ later size, (apart.performAll later).fill size = (atOnce.performAll later).fill size := by
  intro d m apart atOnce
  have hd : d.view = m := Desk.performAll_view _ before
  have hm : (parts.map (·.2)).foldl Mixer.schedule m = m.schedule (parts.map (·.2)).flatten :=
    Mixer.foldl_schedule (Mixer.inOrder_queue rate channels seed _) _
  have hatOnce : atOnce.view = m.schedule (parts.map (·.2)).flatten := by
    rw [Desk.schedule_view, hd]
  have hmixer : apart.mixer = atOnce.mixer := by
    rw [Desk.foldl_schedule_mixer]
    exact (Desk.enqueue_mixer room d _).symm
  have hview : apart.view = atOnce.view := by
    rw [Desk.foldl_schedule_view, hd, hm, hatOnce]
  have heq : apart = atOnce := Desk.ext_view hview hmixer
  refine ⟨hm, hatOnce, congrArg Desk.pending heq, hmixer, ?_⟩
  intro later size
  rw [heq]

end ScoreSynth.Output
