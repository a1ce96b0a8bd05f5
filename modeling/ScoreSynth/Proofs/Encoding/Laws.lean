import Mathlib.Data.List.Forall2
import ScoreSynth.Encoding
import ScoreSynth.Proofs.Beat.Machine

/-!
# What is relied on in an encoding

A library keeps whole numbers, texts, lists, records and variants, and reads back what it wrote. Of
lengths in beats either the very double comes back, or at least one that keeps their order.
-/

namespace ScoreSynth

section
variable {α β : Type} {f : α → Option β} {l : List α}

theorem mapM_eq_some_iff {l' : List β} :
    l.mapM f = some l' ↔ List.Forall₂ (fun a b => f a = some b) l l' := by
  induction l generalizing l' with
  | nil => cases l' <;> simp
  | cons a l ih =>
    have hcons : (a :: l).mapM f = (f a).bind fun b => (l.mapM f).map (b :: ·) := by
      rw [List.mapM_cons]
      cases f a <;> cases l.mapM f <;> rfl
    rw [hcons, Option.bind_eq_some_iff]
    constructor
    · rintro ⟨b, hb, hl⟩
      obtain ⟨bs, hbs, rfl⟩ := Option.map_eq_some_iff.mp hl
      exact .cons hb (ih.mp hbs)
    · rintro (_ | ⟨hb, hbs⟩)
      exact ⟨_, hb, by rw [ih.mpr hbs]; rfl⟩

theorem mapM_eq_some_map {g : α → β} (h : ∀ a ∈ l, f a = some (g a)) :
    l.mapM f = some (l.map g) := by
  rw [mapM_eq_some_iff, List.forall₂_map_right_iff, List.forall₂_same]
  exact h

theorem mapM_eq_some_self {f : α → Option α} (h : ∀ a ∈ l, f a = some a) : l.mapM f = some l := by
  rw [mapM_eq_some_map (g := id) h, List.map_id]

theorem exists_of_forall₂ {R : α → β → Prop} {l' : List β} (h : List.Forall₂ R l l') {b : β}
    (hb : b ∈ l') : ∃ a ∈ l, R a b := by
  induction h with
  | nil => cases hb
  | cons hab _ ih =>
    rcases List.mem_cons.mp hb with rfl | hb
    · exact ⟨_, List.mem_cons_self, hab⟩
    · obtain ⟨a, ha, hab⟩ := ih hb
      exact ⟨a, List.mem_cons_of_mem _ ha, hab⟩

section
variable {l' : List β} (h : l.mapM f = some l')
include h

theorem exists_of_mapM {b : β} (hb : b ∈ l') : ∃ a ∈ l, f a = some b :=
  exists_of_forall₂ (mapM_eq_some_iff.mp h) hb

theorem exists_of_mem_mapM {a : α} (ha : a ∈ l) : ∃ b ∈ l', f a = some b :=
  exists_of_forall₂ (mapM_eq_some_iff.mp h).flip ha

end

end

namespace Encoding

variable {α : Type} {E : Encoding α}

/-! ## Laws -/

inductive Written (E : Encoding α) : α → Prop
  | double (x : Float) : Written E (E.ofDouble x)
  | single (x : Float32) : Written E (E.ofSingle x)
  | int (n : Int) : Written E (E.ofInt n)
  | text (s : String) : Written E (E.ofText s)
  | list (vs : List α) (h : ∀ v ∈ vs, Written E v) : Written E (E.ofList vs)
  | record (fields : List (String × α)) (h : ∀ f ∈ fields, Written E f.2) :
    Written E (E.ofRecord fields)
  | unit (name : String) : Written E (E.ofUnit name)
  | variant (name : String) (v : α) (h : Written E v) : Written E (E.ofVariant name v)

/-- All but floats is found as it was put in, and what was made is read back from its text. -/
structure Legible (E : Encoding α) : Prop where
  int : ∀ {least greatest n : Int}, least ≤ n → n ≤ greatest → n.natAbs ≤ Number.max64 →
    E.int? least greatest (E.ofInt n) = some n
  text : ∀ s, E.text? (E.ofText s) = some s
  list : ∀ vs, E.list? (E.ofList vs) = some vs
  fields : ∀ fields : List (String × α), (fields.map (·.1)).Nodup →
    E.fields? (fields.map (·.1)) (E.ofRecord fields) = some (fields.map (·.2))
  unit : ∀ name, E.unit? (E.ofUnit name) = some name
  variant : ∀ name v, E.variant? (E.ofVariant name v) = some (name, v)
  compact : ∀ v, E.Written v → E.read? (E.compact v) = some v
  spread : ∀ v, E.Written v → E.read? (E.spread v) = some v

structure Exact (E : Encoding α) : Prop extends Legible E where
  double : ∀ b : Beat, E.double? (E.ofDouble b.beats) = some b.beats
  single : E.single? (E.ofSingle 1.0) = some 1.0

/-- A longer length in beats does not come back as a smaller number, and no length as another. -/
structure Steady (E : Encoding α) : Prop extends Legible E where
  finite : ∀ (b : Beat) (x : Float), E.double? (E.ofDouble b.beats) = some x → x.isInf = false
  ordered : ∀ (a b : Beat) (x y : Float), a.ticks ≤ b.ticks →
    E.double? (E.ofDouble a.beats) = some x → E.double? (E.ofDouble b.beats) = some y → x ≤ y
  zero : ∀ x : Float, E.double? (E.ofDouble Beat.zero.beats) = some x → x = 0.0

theorem Exact.steady (hE : E.Exact) : E.Steady where
  toLegible := hE.toLegible
  finite b x hx := by
    rw [hE.double, Option.some_inj] at hx
    rw [← hx]
    exact b.isInf_beats
  ordered a b x y hab hx hy := by
    rw [hE.double, Option.some_inj] at hx hy
    rw [← hx, ← hy]
    exact Beat.beats_mono hab
  zero x hx := by
    rw [hE.double, Option.some_inj] at hx
    rw [← hx]
    decide +kernel

/-! ## Lengths -/

theorem Exact.beat?_ofBeat (hE : E.Exact) (b : Beat) : E.beat? (E.ofBeat b) = some b.reread := by
  unfold beat? ofBeat
  rw [hE.double, Option.map_some, Beat.ofFloat_beats]

theorem Steady.beat?_mono (hE : E.Steady) {a b a' b' : Beat} (h : a.ticks ≤ b.ticks)
    (ha : E.beat? (E.ofBeat a) = some a') (hb : E.beat? (E.ofBeat b) = some b') :
    a'.ticks ≤ b'.ticks := by
  obtain ⟨x, hx, rfl⟩ := Option.map_eq_some_iff.mp ha
  obtain ⟨y, hy, rfl⟩ := Option.map_eq_some_iff.mp hb
  exact Beat.ofFloat_mono (hE.ordered a b x y h hx hy) (hE.finite b y hy)

theorem Steady.beat?_zero (hE : E.Steady) {b : Beat} (h : E.beat? (E.ofBeat .zero) = some b) :
    b = .zero := by
  obtain ⟨x, hx, rfl⟩ := Option.map_eq_some_iff.mp h
  rw [hE.zero x hx]
  decide +kernel

/-! ## Scores -/

section
variable (E)

theorem written_ofPitch (p : Pitch) : E.Written (E.ofPitch p) := by
  cases p with
  | melodic p octave =>
    refine .variant _ _ (.record _ ?_)
    simpa using ⟨.unit p.name, .int octave⟩
  | drum code => exact .variant _ _ (.text code)

theorem written_ofNote (n : Note) : E.Written (E.ofNote n) := by
  refine .record _ ?_
  simpa using ⟨E.written_ofPitch n.pitch, .double _, .single n.velocity⟩

theorem written_ofList_map {β : Type} {f : β → α} (h : ∀ b, E.Written (f b)) (l : List β) :
    E.Written (E.ofList (l.map f)) :=
  .list _ (List.forall_mem_map.mpr fun b _ => h b)

theorem written_ofChord (c : Chord) : E.Written (E.ofChord c) := by
  refine .record _ ?_
  simpa using ⟨E.written_ofList_map E.written_ofNote c.notes, .double _⟩

theorem written_ofPattern (p : Pattern) : E.Written (E.ofPattern p) := by
  refine .record _ ?_
  simpa using E.written_ofList_map E.written_ofChord p.chords

theorem written_ofTrack (t : Track) : E.Written (E.ofTrack t) := by
  refine .record _ ?_
  simpa using ⟨.text t.instrument, E.written_ofList_map E.written_ofPattern t.patterns⟩

theorem written_ofScore (s : Score) : E.Written (E.ofScore s) := by
  refine .record _ ?_
  simpa using ⟨.int s.tempo, E.written_ofList_map E.written_ofTrack s.tracks⟩

end

def PitchFits : Pitch → Prop
  | .melodic _ octave => -0x80000000 ≤ octave ∧ octave ≤ 0x7FFFFFFF
  | .drum _ => True

section
variable (hE : E.Legible)
include hE

theorem Legible.loadScore?_storeScore (s : Score) :
    E.loadScore? (E.storeScore s) = E.score? (E.ofScore s) := by
  unfold loadScore? storeScore
  rw [hE.compact _ (E.written_ofScore s), Option.bind_some]

theorem Legible.loadScore?_showScore (s : Score) :
    E.loadScore? (E.showScore s) = E.score? (E.ofScore s) := by
  unfold loadScore? showScore
  rw [hE.spread _ (E.written_ofScore s), Option.bind_some]

theorem Legible.listOf?_map {β γ : Type} (f : α → Option γ) (g : β → α) (l : List β) :
    E.listOf? f (E.ofList (l.map g)) = l.mapM fun b => f (g b) := by
  unfold listOf?
  rw [hE.list, Option.bind_some]
  exact List.mapM_map

theorem Legible.pitch?_ofPitch {p : Pitch} (h : PitchFits p) : E.pitch? (E.ofPitch p) = some p := by
  cases p with
  | melodic p octave =>
    obtain ⟨hl, hg⟩ := h
    have hfields := hE.fields [("class", E.ofUnit p.name), ("octave", E.ofInt octave)] (by simp)
    simp only [List.map_cons, List.map_nil] at hfields
    have hp : E.pitchClass? (E.ofUnit p.name) = some p := by
      unfold pitchClass?
      rw [hE.unit]
      cases p <;> rfl
    have hoctave := hE.int hl hg (by unfold Number.max64; omega)
    unfold pitch? ofPitch
    simp only [hE.variant, if_true]
    unfold melodic?
    rw [hfields]
    simp only
    rw [hp, hoctave]
    rfl
  | drum code =>
    unfold pitch? ofPitch
    simp only [hE.variant]
    rw [if_neg (by decide), if_pos trivial, hE.text]
    rfl

theorem Legible.note?_ofNote (n : Note) : E.note? (E.ofNote n) =
    (E.pitch? (E.ofPitch n.pitch)).bind fun p => (E.beat? (E.ofBeat n.duration)).bind fun d =>
      (E.single? (E.ofSingle n.velocity)).map fun v => ⟨p, d, v⟩ := by
  have hfields := hE.fields [("pitch", E.ofPitch n.pitch), ("duration", E.ofBeat n.duration),
    ("velocity", E.ofSingle n.velocity)] (by simp)
  simp only [List.map_cons, List.map_nil] at hfields
  unfold note?
  rw [ofNote, hfields]

theorem Legible.chord?_ofChord (c : Chord) : E.chord? (E.ofChord c) =
    (c.notes.mapM fun n => E.note? (E.ofNote n)).bind fun ns =>
      (E.beat? (E.ofBeat c.duration)).map fun d => ⟨ns, d⟩ := by
  have hfields := hE.fields [("notes", E.ofList (c.notes.map E.ofNote)),
    ("duration", E.ofBeat c.duration)] (by simp)
  simp only [List.map_cons, List.map_nil] at hfields
  unfold chord?
  rw [ofChord, hfields]
  simp only
  rw [hE.listOf?_map]

theorem Legible.pattern?_ofPattern (p : Pattern) : E.pattern? (E.ofPattern p) =
    (p.chords.mapM fun c => E.chord? (E.ofChord c)).map Pattern.mk := by
  have hfields := hE.fields [("chords", E.ofList (p.chords.map E.ofChord))] (by simp)
  simp only [List.map_cons, List.map_nil] at hfields
  unfold pattern?
  rw [ofPattern, hfields]
  simp only
  rw [hE.listOf?_map]

theorem Legible.track?_ofTrack (t : Track) : E.track? (E.ofTrack t) =
    (t.patterns.mapM fun p => E.pattern? (E.ofPattern p)).map fun ps => ⟨t.instrument, ps⟩ := by
  have hfields := hE.fields [("instrument", E.ofText t.instrument),
    ("patterns", E.ofList (t.patterns.map E.ofPattern))] (by simp)
  simp only [List.map_cons, List.map_nil] at hfields
  unfold track?
  rw [ofTrack, hfields]
  simp only
  rw [hE.listOf?_map, hE.text, Option.bind_some]

theorem Legible.score?_ofScore {s : Score} (h : s.tempo ≤ Number.max32) :
    E.score? (E.ofScore s) =
      (s.tracks.mapM fun t => E.track? (E.ofTrack t)).map fun ts => ⟨s.tempo, ts⟩ := by
  have hfields := hE.fields [("tempo", E.ofInt s.tempo),
    ("tracks", E.ofList (s.tracks.map E.ofTrack))] (by simp)
  simp only [List.map_cons, List.map_nil] at hfields
  have hmax : Number.max32 ≤ Number.max64 := by decide
  unfold score?
  rw [ofScore, hfields]
  simp only
  rw [hE.listOf?_map, hE.int (by omega) (by omega) (by omega)]
  rfl

end

end Encoding

end ScoreSynth
