import ScoreSynth.Proofs.Json.Encoding
import ScoreSynth.Proofs.Notation.WellFormed

/-!
# Stored scores

A compiled score is loaded as it was stored, and its pitch classes stand in the stored form under
their sharp names.
-/

namespace ScoreSynth

def sharpNames : List String := ["C", "C#", "D", "D#", "E", "F", "F#", "G", "G#", "A", "A#", "B"]

def Note.sharpName? (n : Note) : Option String :=
  match n.pitch with
  | .melodic p _ => sharpNames[p.index]?
  | .drum _ => none

namespace Encoding

variable {α : Type} {E : Encoding α}

/-! ## Names in a stored score -/

section
variable (E)

def listAt? (names : List String) (i : Nat) (v : α) : Option (List α) :=
  (E.fields? names v).bind fun fields => fields[i]?.bind E.list?

def listsAt? (names : List String) (i : Nat) (vs : List α) : Option (List α) :=
  (vs.mapM (E.listAt? names i)).map List.flatten

def noteValues? (v : α) : Option (List α) :=
  (E.listAt? ["tempo", "tracks"] 1 v).bind fun tracks =>
    (E.listsAt? ["instrument", "patterns"] 1 tracks).bind fun patterns =>
      (E.listsAt? ["chords"] 0 patterns).bind fun chords =>
        E.listsAt? ["notes", "duration"] 0 chords

def className? (note : α) : Option String :=
  (E.fields? ["pitch", "duration", "velocity"] note).bind fun fields =>
    fields[0]?.bind fun pitch => (E.variant? pitch).bind fun (kind, held) =>
      if kind = "melodic" then
        (E.fields? ["class", "octave"] held).bind fun fields => fields[0]?.bind E.unit?
      else none

def classNames? (v : α) : Option (List String) :=
  (E.noteValues? v).map fun notes => notes.filterMap E.className?

end

theorem sharpNames_index (p : PitchClass) : sharpNames[p.index]? = some p.name := by
  cases p <;> rfl

theorem listsAt?_map {β γ : Type} {names : List String} {i : Nat} {f : β → α} {g : γ → α}
    {h : β → List γ} (hf : ∀ b, E.listAt? names i (f b) = some ((h b).map g)) (l : List β) :
    E.listsAt? names i (l.map f) = some ((l.flatMap h).map g) := by
  have hl : (l.map f).mapM (E.listAt? names i) = some (l.map fun b => (h b).map g) := by
    rw [List.mapM_map]
    exact mapM_eq_some_map fun b _ => hf b
  unfold listsAt?
  rw [hl, Option.map_some, List.map_flatMap, List.flatMap_def]

section
variable (hE : E.Legible)
include hE

theorem Legible.listAt?_record (fields : List (String × α)) (h : (fields.map (·.1)).Nodup) {i : Nat}
    {vs : List α} (hi : (fields.map (·.2))[i]? = some (E.ofList vs)) :
    E.listAt? (fields.map (·.1)) i (E.ofRecord fields) = some vs := by
  unfold listAt?
  rw [hE.fields fields h, Option.bind_some, hi, Option.bind_some, hE.list]

theorem Legible.noteValues?_ofScore (s : Score) :
    E.noteValues? (E.ofScore s) = some (s.notes.map E.ofNote) := by
  have htracks : E.listAt? ["tempo", "tracks"] 1 (E.ofScore s) = some (s.tracks.map E.ofTrack) :=
    hE.listAt?_record [("tempo", E.ofInt s.tempo), ("tracks", _)] (by simp) rfl
  have hpatterns : ∀ t : Track, E.listAt? ["instrument", "patterns"] 1 (E.ofTrack t) =
      some (t.patterns.map E.ofPattern) := fun t =>
    hE.listAt?_record [("instrument", E.ofText t.instrument), ("patterns", _)] (by simp) rfl
  have hchords : ∀ p : Pattern, E.listAt? ["chords"] 0 (E.ofPattern p) =
      some (p.chords.map E.ofChord) := fun p =>
    hE.listAt?_record [("chords", _)] (by simp) rfl
  have hnotes : ∀ c : Chord, E.listAt? ["notes", "duration"] 0 (E.ofChord c) =
      some (c.notes.map E.ofNote) := fun c =>
    hE.listAt?_record [("notes", _), ("duration", E.ofBeat c.duration)] (by simp) rfl
  have horder : s.notes = ((s.tracks.flatMap (·.patterns)).flatMap (·.chords)).flatMap (·.notes) := by
    unfold Score.notes
    rw [List.flatMap_assoc (f := Track.patterns)]
    rfl
  unfold noteValues?
  rw [htracks, Option.bind_some, listsAt?_map hpatterns, Option.bind_some, listsAt?_map hchords,
    Option.bind_some, listsAt?_map hnotes, horder]

theorem Legible.className?_ofNote (n : Note) : E.className? (E.ofNote n) = n.sharpName? := by
  have hnote := hE.fields [("pitch", E.ofPitch n.pitch), ("duration", E.ofBeat n.duration),
    ("velocity", E.ofSingle n.velocity)] (by simp)
  simp only [List.map_cons, List.map_nil] at hnote
  unfold className? Note.sharpName?
  rw [ofNote, hnote]
  cases hp : n.pitch with
  | melodic p octave =>
    have hmelodic := hE.fields [("class", E.ofUnit p.name), ("octave", E.ofInt octave)] (by simp)
    simp only [List.map_cons, List.map_nil] at hmelodic
    rw [ofPitch]
    simp [hE.variant, hmelodic, hE.unit, sharpNames_index]
  | drum code =>
    rw [ofPitch]
    simp [hE.variant]

theorem Legible.classNames?_ofScore (s : Score) :
    E.classNames? (E.ofScore s) = some (s.notes.filterMap Note.sharpName?) := by
  unfold classNames?
  rw [hE.noteValues?_ofScore, Option.map_some, List.filterMap_map]
  congr 2
  exact funext hE.className?_ofNote

end

/-! ## Scores that are stored without loss -/

structure KeptNote (n : Note) : Prop where
  pitch : PitchFits n.pitch
  duration : n.duration.reread = n.duration
  velocity : n.velocity = 1.0

structure KeptChord (c : Chord) : Prop where
  notes : ∀ n ∈ c.notes, KeptNote n
  duration : c.duration.reread = c.duration

structure Kept (s : Score) : Prop where
  tempo_le : s.tempo ≤ Number.max32
  chords : ∀ t ∈ s.tracks, ∀ p ∈ t.patterns, ∀ c ∈ p.chords, KeptChord c

section
variable (hE : E.Exact)
include hE

theorem Exact.note?_ofNote {n : Note} (h : KeptNote n) : E.note? (E.ofNote n) = some n := by
  have hpitch := hE.toLegible.pitch?_ofPitch h.pitch
  have hvelocity : E.single? (E.ofSingle n.velocity) = some n.velocity := by
    rw [h.velocity]
    exact hE.single
  rw [hE.toLegible.note?_ofNote, hpitch, hE.beat?_ofBeat, hvelocity, h.duration]
  rfl

theorem Exact.chord?_ofChord {c : Chord} (h : KeptChord c) : E.chord? (E.ofChord c) = some c := by
  have hnotes := mapM_eq_some_self fun n hn => hE.note?_ofNote (h.notes n hn)
  rw [hE.toLegible.chord?_ofChord, hnotes, hE.beat?_ofBeat, h.duration]
  rfl

theorem Exact.score?_ofScore {s : Score} (h : Kept s) : E.score? (E.ofScore s) = some s := by
  have htrack : ∀ t ∈ s.tracks, E.track? (E.ofTrack t) = some t := by
    intro t ht
    have hpattern : ∀ p ∈ t.patterns, E.pattern? (E.ofPattern p) = some p := by
      intro p hp
      have hchords := mapM_eq_some_self fun c hc => hE.chord?_ofChord (h.chords t ht p hp c hc)
      rw [hE.toLegible.pattern?_ofPattern, hchords]
      rfl
    rw [hE.toLegible.track?_ofTrack, mapM_eq_some_self hpattern]
    rfl
  rw [hE.toLegible.score?_ofScore h.tempo_le, mapM_eq_some_self htrack]
  rfl

end

/-! ## Compiled scores -/

open Notation

theorem pitchFits_of_fits {drums : Bool} {p : Pitch} (h : Fits drums p) : PitchFits p := by
  cases p with
  | melodic p octave =>
    have hmax : Spelling.greatestOctave = 10 := rfl
    obtain ⟨-, hl, hg⟩ := h
    exact ⟨by omega, by omega⟩
  | drum code => trivial

theorem kept_compiledChord {drums : Bool} {c : Chord} (hc : CompiledChord drums c)
    (h : ∀ n ∈ c.notes, n.duration.ticks < 2 ^ 51) : KeptChord c where
  notes n hn := by
    have hn' := hc.notes n hn
    exact ⟨pitchFits_of_fits hn'.fits, Beat.reread_eq (h n hn), hn'.velocity⟩
  duration := by
    refine Beat.reread_eq ?_
    rw [hc.duration_eq]
    cases hm : (c.notes.map (·.duration.ticks)).max? with
    | none => decide
    | some m =>
      obtain ⟨n, hn, rfl⟩ := List.mem_map.mp (List.max?_mem hm)
      exact h n hn

theorem kept_compile {source : String}
    (h : ∀ n ∈ (compile source).notes, n.duration.ticks < 2 ^ 51) : Kept (compile source) := by
  have hcompiled := compiled_compile source
  refine ⟨hcompiled.tempo_le, fun t ht p hp c hc => ?_⟩
  have hchord : c ∈ t.chords := List.mem_flatMap.mpr ⟨p, hp, hc⟩
  refine kept_compiledChord ((hcompiled.tracks t ht).chords p hp c hc) fun n hn => h n ?_
  exact List.mem_flatMap.mpr ⟨c, List.mem_flatMap.mpr ⟨t, ht, hchord⟩, hn⟩

/--
With an encoding that loses nothing, a compiled score with notes below 2^51 ticks is loaded as it
was stored, on one line or on many, and each melodic note stands in the text under its sharp name.
-/
theorem compile_stored_loads {α : Type} {E : Encoding α} (hE : E.Exact) (source : String)
    (h : ∀ n ∈ (compile source).notes, n.duration.ticks < 2 ^ 51) :
    let score := compile source
    E.loadScore? (E.storeScore score) = some score ∧
      E.loadScore? (E.showScore score) = some score ∧
      (E.read? (E.storeScore score)).bind E.classNames? =
        some (score.notes.filterMap Note.sharpName?) ∧
      (E.read? (E.showScore score)).bind E.classNames? =
        some (score.notes.filterMap Note.sharpName?) := by
  intro score
  have hloaded := hE.score?_ofScore (kept_compile h)
  have hnames := hE.toLegible.classNames?_ofScore score
  have hwritten := E.written_ofScore score
  refine ⟨?_, ?_, ?_, ?_⟩
  · rw [hE.toLegible.loadScore?_storeScore]
    exact hloaded
  · rw [hE.toLegible.loadScore?_showScore]
    exact hloaded
  · rw [storeScore, hE.compact _ hwritten]
    exact hnames
  · rw [showScore, hE.spread _ hwritten]
    exact hnames

/-- JSON keeps a name with a quote, a backslash and a control character, and spells flats as sharps. -/
theorem compile_stored_loads_quoted_name :
    let E := Json.encoding
    let score := compile "tempo:90;\"le\\ad\"\x01\té:c#4.0.001+Eb4.1,,|;drums:KICK.2.5"
    E.Exact ∧ (∀ n ∈ score.notes, n.duration.ticks < 2 ^ 51) ∧
      E.loadScore? (E.storeScore score) = some score ∧
      E.loadScore? (E.showScore score) = some score ∧
      (E.read? (E.storeScore score)).bind E.classNames? = some ["C#", "D#"] ∧
      (E.read? (E.showScore score)).bind E.classNames? = some ["C#", "D#"] := by
  intro E score
  have hshort : ∀ n ∈ score.notes, n.duration.ticks < 2 ^ 51 := by decide
  have hnames : score.notes.filterMap Note.sharpName? = ["C#", "D#"] := by decide
  rw [← hnames]
  exact ⟨Json.exact, hshort, compile_stored_loads Json.exact _ hshort⟩

end Encoding

end ScoreSynth
