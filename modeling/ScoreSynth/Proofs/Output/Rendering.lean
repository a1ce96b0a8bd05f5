import ScoreSynth.Output.Offline
import ScoreSynth.Proofs.Output.Orders

/-!
# Rendering live and offline

A piece is played as cues: tones, volumes and stretches of frames. A callback gets them through its
ring and renders a stretch block by block; an offline output gets them directly and renders a stretch
at once. Both give the same samples, however the stretches are cut.
-/

namespace ScoreSynth.Output

inductive Cue where
  | tones (cs : List (Command Float))
  | volume (v : Float32)
  /-- Frames to be rendered, block by block. -/
  | frames (blocks : List Nat)

def Cue.isOrder : Cue → Bool
  | .frames _ => false
  | _ => true

namespace Callback

def processAll (c : Callback) : List Nat → Array Float32 × Callback
  | [] => (#[], c)
  | n :: blocks =>
    let (samples, c) := c.process (n * c.mixer.channels)
    let (more, c) := c.processAll blocks
    (samples ++ more, c)

def play? (rate : Nat) (c : Callback) : List Cue → Option (Array Float32 × Callback)
  | [] => some (#[], c)
  | .tones cs :: cues => (c.push? (.schedule (.ofCommands cs rate))).bind (·.play? rate cues)
  | .volume v :: cues => (c.push? (.setVolume v)).bind (·.play? rate cues)
  | .frames blocks :: cues =>
    let (samples, c) := c.processAll blocks
    (c.play? rate cues).map fun (more, c) => (samples ++ more, c)

end Callback

def Offline.play (o : Offline) : List Cue → Except Failure (Array Float32 × Offline)
  | [] => .ok (#[], o)
  | .tones cs :: cues => (o.submit cs).bind (·.play cues)
  | .volume v :: cues => (o.setVolume v).bind (·.play cues)
  | .frames blocks :: cues =>
    let (samples, o) := o.renderFrames blocks.sum
    (o.play cues).map fun (more, o) => (samples ++ more, o)

/-- A callback that would stand where an offline output stands, were its ring empty. -/
structure Abreast (rate : Nat) (c : Callback) (o : Offline) : Prop where
  mixer : c.drained = o.mixer
  clock : c.clock = o.mixer.frame
  channels : c.mixer.channels = o.mixer.channels
  channels_pos : 0 < o.mixer.channels
  rate : max o.mixer.rate 1 = max rate 1
  opened : o.closed = false

theorem Mixer.obey_format (m : Mixer) (o : Order) :
    (m.obey o).rate = m.rate ∧ (m.obey o).channels = m.channels ∧ (m.obey o).frame = m.frame := by
  cases o with
  | setVolume v => simp only [obey, setVolume]; split <;> exact ⟨rfl, rfl, rfl⟩
  | _ => exact ⟨rfl, rfl, rfl⟩

theorem Mixer.fill_zero {m : Mixer} (hc : 0 < m.channels) : m.fill 0 = (#[], m) := by
  have hn : framesIn m.channels 0 = 0 := by simpa using framesIn_mul hc 0
  apply Prod.ext
  · exact Array.eq_empty_of_size_eq_zero (size_fill m 0)
  · rw [fill_snd, hn, after_zero]

theorem Batch.ofCommands_max (cs : List (Command Float)) (rate : Nat) :
    Batch.ofCommands cs (max rate 1) = Batch.ofCommands cs rate := by
  simp [Batch.ofCommands]

def Callback.wait (c : Callback) (ord : Order) : Callback :=
  { c with waiting := c.waiting ++ [ord] }

theorem Callback.push?_eq (c : Callback) (ord : Order) :
    c.push? ord = if c.waiting.length < c.capacity then some (c.wait ord) else none := rfl

theorem Callback.waiting_processAll (c : Callback) (blocks : List Nat) :
    (c.processAll blocks).2.waiting.length ≤ c.waiting.length ∧
      (c.processAll blocks).2.capacity = c.capacity := by
  induction blocks generalizing c with
  | nil => exact ⟨Nat.le_refl _, rfl⟩
  | cons n blocks ih =>
    obtain ⟨hw, hk⟩ := ih (c.process (n * c.mixer.channels)).2
    exact ⟨Nat.le_trans hw (Nat.zero_le _), hk⟩

namespace Abreast

variable {rate : Nat} {c : Callback} {o : Offline}

theorem wait (h : Abreast rate c o) {ord : Order} {o' : Offline}
    (hm : o'.mixer = o.mixer.obey ord) (ho : o'.closed = o.closed) :
    Abreast rate (c.wait ord) o' := by
  obtain ⟨hr, hch, hf⟩ := o.mixer.obey_format ord
  constructor
  · rw [hm, ← h.mixer]; simp [Callback.wait, Callback.drained]
  · rw [hm, hf]; exact h.clock
  · rw [hm, hch]; exact h.channels
  · rw [hm, hch]; exact h.channels_pos
  · rw [hm, hr]; exact h.rate
  · rw [ho]; exact h.opened

theorem tones (h : Abreast rate c o) (cs : List (Command Float)) :
    ∃ o', o.submit cs = .ok o' ∧ Abreast rate (c.wait (.schedule (.ofCommands cs rate))) o' := by
  have hb : Batch.ofCommands cs o.mixer.rate = Batch.ofCommands cs rate := by
    rw [← Batch.ofCommands_max, h.rate, Batch.ofCommands_max]
  refine ⟨_, if_neg (by simp [h.opened]), h.wait ?_ rfl⟩
  show o.mixer.enqueue _ = o.mixer.enqueue _
  rw [hb]

theorem volume (h : Abreast rate c o) (v : Float32) :
    ∃ o', o.setVolume v = .ok o' ∧ Abreast rate (c.wait (.setVolume v)) o' :=
  ⟨_, if_neg (by simp [h.opened]), h.wait rfl rfl⟩

theorem process (h : Abreast rate c o) (n : Nat) :
    (c.process (n * c.mixer.channels)).1 = (o.renderFrames n).1 ∧
      Abreast rate (c.process (n * c.mixer.channels)).2 (o.renderFrames n).2 := by
  rw [Callback.process_eq, h.mixer, h.channels]
  refine ⟨rfl, rfl, rfl, rfl, ?_, ?_, h.opened⟩
  · show 0 < (o.mixer.fill (n * o.mixer.channels)).2.channels
    rw [Mixer.fill_channels]; exact h.channels_pos
  · show max (o.mixer.fill (n * o.mixer.channels)).2.rate 1 = _
    rw [Mixer.fill_rate]; exact h.rate

theorem renderFrames_add (h : Abreast rate c o) (a b : Nat) :
    o.renderFrames (a + b) = ((o.renderFrames a).1 ++ ((o.renderFrames a).2.renderFrames b).1,
      ((o.renderFrames a).2.renderFrames b).2) := by
  have hf := Mixer.fill_append h.channels_pos a (b * o.mixer.channels)
  simp only [Offline.renderFrames, Mixer.fill_channels, Nat.add_mul, hf]

theorem processAll (h : Abreast rate c o) (blocks : List Nat) :
    (c.processAll blocks).1 = (o.renderFrames blocks.sum).1 ∧
      Abreast rate (c.processAll blocks).2 (o.renderFrames blocks.sum).2 := by
  induction blocks generalizing c o with
  | nil =>
    have hz := Mixer.fill_zero h.channels_pos
    simp only [Callback.processAll, Offline.renderFrames, List.sum_nil, Nat.zero_mul, hz]
    exact ⟨trivial, h⟩
  | cons n blocks ih =>
    obtain ⟨hs, hn⟩ := h.process n
    obtain ⟨hs', hn'⟩ := ih hn
    rw [List.sum_cons, h.renderFrames_add]
    exact ⟨by rw [← hs, ← hs']; rfl, hn'⟩

def PlaysAlike (rate : Nat) (c : Callback) (o : Offline) (cues : List Cue) : Prop :=
  ∃ samples o', o.play cues = .ok (samples, o') ∧
    (∀ out c', c.play? rate cues = some (out, c') →
      out = samples ∧ c'.clock = o'.mixer.frame ∧ c'.drained = o'.mixer) ∧
    (c.waiting.length + (cues.filter Cue.isOrder).length ≤ c.capacity →
      (c.play? rate cues).isSome)

theorem playsAlike_order {cue : Cue} {cues : List Cue} {ord : Order} {o₁ : Offline}
    (hc : c.play? rate (cue :: cues) = (c.push? ord).bind (·.play? rate cues))
    (ho : o.play (cue :: cues) = o₁.play cues) (hcue : cue.isOrder = true)
    (h : PlaysAlike rate (c.wait ord) o₁ cues) : PlaysAlike rate c o (cue :: cues) := by
  obtain ⟨samples, o', hp, hout, hroom⟩ := h
  refine ⟨samples, o', ho.trans hp, fun out c' e => ?_, fun hr => ?_⟩
  · rw [hc, Callback.push?_eq] at e
    split at e
    · exact hout out c' e
    · cases e
  · have hl : (c.wait ord).waiting.length = c.waiting.length + 1 := by simp [Callback.wait]
    have hk : (c.wait ord).capacity = c.capacity := rfl
    rw [List.filter_cons_of_pos hcue, List.length_cons] at hr
    rw [hc, Callback.push?_eq, if_pos (by omega)]
    exact hroom (by rw [hl, hk]; omega)

theorem playsAlike (h : Abreast rate c o) (cues : List Cue) : PlaysAlike rate c o cues := by
  induction cues generalizing c o with
  | nil =>
    refine ⟨#[], o, rfl, fun out c' e => ?_, fun _ => rfl⟩
    cases e
    exact ⟨rfl, h.clock, h.mixer⟩
  | cons cue cues ih =>
    cases cue with
    | tones cs =>
      obtain ⟨o', hs, hw⟩ := h.tones cs
      exact playsAlike_order rfl (by rw [Offline.play, hs]; rfl) rfl (ih hw)
    | volume v =>
      obtain ⟨o', hs, hw⟩ := h.volume v
      exact playsAlike_order rfl (by rw [Offline.play, hs]; rfl) rfl (ih hw)
    | frames blocks =>
      obtain ⟨hs, hn⟩ := h.processAll blocks
      obtain ⟨samples, o', hp, hout, hroom⟩ := ih hn
      refine ⟨(o.renderFrames blocks.sum).1 ++ samples, o', ?_, fun out c' e => ?_, fun hr => ?_⟩
      · simp only [Offline.play, hp]; rfl
      · simp only [Callback.play?, Option.map_eq_some_iff] at e
        obtain ⟨⟨more, c''⟩, he, hc⟩ := e
        obtain ⟨rfl, hk⟩ := hout more c'' he
        cases hc
        exact ⟨by rw [hs], hk⟩
      · obtain ⟨hw, hk⟩ := c.waiting_processAll blocks
        simp only [Callback.play?, Option.isSome_map]
        exact hroom (Nat.le_trans (by simpa [Cue.isOrder] using hw) (hk ▸ hr))

end Abreast

theorem abreast_start (capacity rate channels : Nat) (seed : UInt64) :
    Abreast rate (.start capacity (.start rate channels seed)) (.start rate channels seed) := by
  refine ⟨rfl, rfl, rfl, ?_, ?_, rfl⟩
  · exact Nat.lt_of_lt_of_le Nat.zero_lt_one (Nat.le_max_right _ _)
  · show max (max rate 1) 1 = max rate 1
    omega

theorem Offline.onDesk_play {rate channels : Nat} {seed : UInt64} {o o' : Offline}
    (h : o.mixer.OnDesk rate channels seed) {cues : List Cue} {samples : Array Float32}
    (hp : o.play cues = .ok (samples, o')) : o'.mixer.OnDesk rate channels seed := by
  induction cues generalizing o samples with
  | nil => cases hp; exact h
  | cons cue cues ih =>
    cases cue with
    | tones cs =>
      simp only [play] at hp
      cases hs : o.submit cs with
      | error f => rw [hs] at hp; cases hp
      | ok o₁ => rw [hs] at hp; exact ih (onDesk_submit h hs) hp
    | volume v =>
      simp only [play] at hp
      cases hs : o.setVolume v with
      | error f => rw [hs] at hp; cases hp
      | ok o₁ => rw [hs] at hp; exact ih (onDesk_setVolume h hs) hp
    | frames blocks =>
      simp only [play] at hp
      cases hr : (o.renderFrames blocks.sum).2.play cues with
      | error f => rw [hr] at hp; cases hp
      | ok out => rw [hr] at hp; cases hp; exact ih (onDesk_renderFrames h _) hr

/--
A piece played through the ring of a callback, its stretches cut into blocks in any way, gives the
samples and the clock of the same piece played by an offline output. The offline output plays every
piece, and the ring refuses none of its orders if it has room for them all. Once all orders are
carried out both have one mixer, and it is that of a desk.
-/
theorem live_eq_offline (capacity rate channels : Nat) (seed : UInt64) (cues : List Cue) :
    ∃ samples o, (Offline.start rate channels seed).play cues = .ok (samples, o) ∧
      (∀ out c, (Callback.start capacity (.start rate channels seed)).play? rate cues = some (out, c) →
        out = samples ∧ c.clock = o.mixer.frame ∧ c.drained = o.mixer) ∧
      ((cues.filter Cue.isOrder).length ≤ capacity →
        ((Callback.start capacity (.start rate channels seed)).play? rate cues).isSome) ∧
      o.mixer.OnDesk rate channels seed := by
  obtain ⟨samples, o, hp, hout, hroom⟩ := (abreast_start capacity rate channels seed).playsAlike cues
  refine ⟨samples, o, hp, hout, fun h => hroom ?_, Offline.onDesk_play Mixer.onDesk_start hp⟩
  show [].length + _ ≤ capacity
  rwa [List.length_nil, Nat.zero_add]

end ScoreSynth.Output
