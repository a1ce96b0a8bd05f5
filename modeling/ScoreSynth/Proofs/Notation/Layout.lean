import ScoreSynth.Proofs.Notation.Segments

/-!
# Layouts

How entries may be laid out as a text: items stand between separators, and around and between them
are gaps of blanks and comments. A layout with comments turns into one with blanks only when the
comments are taken out.
-/

namespace ScoreSynth.Notation

/-! ## Gaps and items -/

/-- Blanks, line ends among them, and comments with their line ends. -/
inductive Gap : List Char → Prop where
  | nil : Gap []
  | blank {c : Char} {g : List Char} : Text.isBlank c = true → Gap g → Gap (c :: g)
  | comment {t g : List Char} : '\n' ∉ t → Gap g → Gap ('/' :: '/' :: (t ++ '\n' :: g))

def Blank (g : List Char) : Prop := Text.allBlank g = true

theorem gap_of_blank {g : List Char} (h : Blank g) : Gap g := by
  induction g with
  | nil => exact .nil
  | cons c g ih =>
    have hc := Bool.and_eq_true_iff.mp h
    exact .blank hc.1 (ih hc.2)

def Padded (core text : List Char) : Prop := ∃ l r, Gap l ∧ Gap r ∧ text = l ++ (core ++ r)

def Trimmed (core text : List Char) : Prop :=
  Text.trim text = Text.trim core ∧ ∀ c ∈ text, Text.isBlank c = true ∨ c ∈ core

/-- Items in their order with separators between, and fillers between some of the separators. -/
inductive Spread {α : Type} (sep : Char) (G : List Char → Prop) (R : α → List Char → Prop) :
    List α → List Char → Prop where
  | gap {g : List Char} : G g → Spread sep G R [] g
  | item {x : α} {p : List Char} : R x p → Spread sep G R [x] p
  | gap_cons {g : List Char} {xs : List α} {s : List Char} :
      G g → Spread sep G R xs s → Spread sep G R xs (g ++ sep :: s)
  | item_cons {x : α} {p : List Char} {xs : List α} {s : List Char} :
      R x p → Spread sep G R xs s → Spread sep G R (x :: xs) (p ++ sep :: s)

/-! ## Entries -/

structure Entry where
  name : List Char
  patterns : List (List (List (List Char)))

@[mk_iff]
structure ProperToken (token : List Char) : Prop where
  not_blank : Text.allBlank token = false
  free : ∀ c ∈ [';', '|', ',', '+', '/', '\n'], c ∉ token

@[mk_iff]
structure ProperName (name : List Char) : Prop where
  ne_nil : name ≠ []
  tight : Text.Tight name
  not_tempo : name.map Char.toLower ≠ "tempo".toList
  free : ∀ c ∈ [';', ':', '/', '\n'], c ∉ name

def ProperChord (tokens : List (List Char)) : Prop := tokens ≠ [] ∧ ∀ t ∈ tokens, ProperToken t

def ProperPattern (chords : List (List (List Char))) : Prop :=
  chords ≠ [] ∧ ∀ c ∈ chords, ProperChord c

@[mk_iff]
structure ProperEntry (e : Entry) : Prop where
  name : ProperName e.name
  patterns_ne_nil : e.patterns ≠ []
  patterns : ∀ p ∈ e.patterns, ProperPattern p

-- over the few characters of the list, not over all characters
instance decidableNoneMem (cs text : List Char) : Decidable (∀ c ∈ cs, c ∉ text) :=
  List.decidableBAll _ cs

instance : DecidablePred ProperToken := fun t => decidable_of_iff' _ (properToken_iff t)

instance : DecidablePred ProperName := fun n => decidable_of_iff' _ (properName_iff n)

instance : DecidablePred ProperChord := fun _ => inferInstanceAs (Decidable (_ ∧ _))

instance : DecidablePred ProperPattern := fun _ => inferInstanceAs (Decidable (_ ∧ _))

instance : DecidablePred ProperEntry := fun e => decidable_of_iff' _ (properEntry_iff e)

section
variable (G : List Char → Prop) (P : List Char → List Char → Prop)

/-- A blank token is a token, so no filler stands between tokens. -/
def ChordText : List (List Char) → List Char → Prop := Spread '+' (fun _ => False) P

def PatternText : List (List (List Char)) → List Char → Prop := Spread ',' G (ChordText P)

def BodyText : List (List (List (List Char))) → List Char → Prop := Spread '|' G (PatternText G P)

def TrackText (e : Entry) (text : List Char) : Prop :=
  ∃ n b, P e.name n ∧ BodyText G P e.patterns b ∧ text = n ++ ':' :: b

def ScoreText : List Entry → List Char → Prop := Spread ';' G (TrackText G P)

end

/-- A layout of the entries; the last line may end in a comment. -/
def LaidOut (entries : List Entry) (source : List Char) : Prop :=
  ∃ s last, ScoreText Gap Padded entries s ∧
    (last = [] ∨ ∃ t, '\n' ∉ t ∧ last = '/' :: '/' :: t) ∧ source = s ++ last

/-! ## What is left without the comments -/

theorem stripped_cons {c : Char} {v : List Char} (hn : c ≠ '\n') (hslash : c ≠ '/')
    (hreturn : ¬(c = '\r' ∧ v.head? = some '\n')) :
    stripped false (c :: v) = c :: stripped false v := by
  rw [stripped, if_neg hn, if_neg Bool.false_ne_true, if_neg fun h => hslash h.1, if_neg hreturn]

def Leaves (P : List Char → Prop) (s : List Char) : Prop :=
  ∀ v, ∃ u, P u ∧ stripped false (s ++ v) = u ++ stripped false v

section
variable {P Q R : List Char → Prop} {s t : List Char}

theorem Leaves.mono (h : Leaves P s) (hPQ : ∀ u, P u → Q u) : Leaves Q s := by
  intro v
  obtain ⟨u, hu, hs⟩ := h v
  exact ⟨u, hPQ u hu, hs⟩

theorem Leaves.append (hs : Leaves P s) (ht : Leaves Q t)
    (hR : ∀ u w, P u → Q w → R (u ++ w)) : Leaves R (s ++ t) := by
  intro v
  obtain ⟨u, hu, hsu⟩ := hs (t ++ v)
  obtain ⟨w, hw, htw⟩ := ht v
  refine ⟨u ++ w, hR u w hu hw, ?_⟩
  rw [List.append_assoc, hsu, htw, List.append_assoc]

/-- A separator stays as it is. -/
theorem Leaves.append_cons {sep : Char} (hsep : sep ∉ ['\n', '/', '\r']) (hs : Leaves P s)
    (ht : Leaves Q t) (hR : ∀ u w, P u → Q w → R (u ++ sep :: w)) : Leaves R (s ++ sep :: t) := by
  have hcons : Leaves (fun u => ∃ w, Q w ∧ u = sep :: w) (sep :: t) := by
    intro v
    obtain ⟨w, hw, htw⟩ := ht v
    refine ⟨sep :: w, ⟨w, hw, rfl⟩, ?_⟩
    simp only [List.mem_cons, List.not_mem_nil, or_false, not_or] at hsep
    rw [List.cons_append, stripped_cons hsep.1 hsep.2.1 fun h => hsep.2.2 h.1, htw]
    rfl
  refine hs.append hcons ?_
  rintro u - hu ⟨w, hw, rfl⟩
  exact hR u w hu hw

end

theorem stripped_newline (comment : Bool) (v : List Char) :
    ∃ u, Blank u ∧ stripped comment ('\n' :: v) = u ++ stripped false v := by
  by_cases hv : v = []
  · subst hv
    exact ⟨[], rfl, by simp [stripped]⟩
  · exact ⟨['\n'], rfl, by simp [stripped, hv]⟩

theorem stripped_open {t : List Char} (ht : '\n' ∉ t) (v : List Char) :
    stripped true (t ++ v) = stripped true v := by
  induction t with
  | nil => rfl
  | cons c t ih =>
    rw [List.mem_cons, not_or] at ht
    simp [stripped, Ne.symm ht.1, ih ht.2]

theorem leaves_blank {c : Char} (hc : Text.isBlank c = true) : Leaves Blank [c] := by
  intro v
  show ∃ u, Blank u ∧ stripped false (c :: v) = u ++ stripped false v
  by_cases hn : c = '\n'
  · subst hn
    exact stripped_newline false v
  · have hslash : c ≠ '/' := by
      rintro rfl
      cases hc
    by_cases hr : c = '\r' ∧ v.head? = some '\n'
    · exact ⟨[], rfl, by simp [stripped, hr]⟩
    · exact ⟨[c], by simp [Blank, Text.allBlank, hc], stripped_cons hn hslash hr⟩

theorem blank_append {s t : List Char} (hs : Blank s) (ht : Blank t) : Blank (s ++ t) := by
  unfold Blank at *
  rw [Text.allBlank_append, hs, ht]
  rfl

theorem leaves_gap {g : List Char} (hg : Gap g) : Leaves Blank g := by
  induction hg with
  | nil => exact fun v => ⟨[], rfl, rfl⟩
  | blank hc _ ih => exact (leaves_blank hc).append ih fun u w => blank_append
  | @comment t g ht _ ih =>
    have hline : Leaves Blank ('/' :: '/' :: (t ++ ['\n'])) := by
      intro v
      obtain ⟨u, hu, hv⟩ := stripped_newline true v
      refine ⟨u, hu, ?_⟩
      rw [← hv, ← stripped_open ht]
      simp [stripped]
    have hsplit : '/' :: '/' :: (t ++ '\n' :: g) = '/' :: '/' :: (t ++ ['\n']) ++ g := by simp
    rw [hsplit]
    exact hline.append ih fun u w => blank_append

/-- A word without slashes and line feeds stays but for a carriage return before a line feed. -/
theorem leaves_word {core : List Char} (hslash : '/' ∉ core) (hn : '\n' ∉ core) :
    Leaves (fun u => ∃ b, Blank b ∧ core = u ++ b) core := by
  intro v
  induction core with
  | nil => exact ⟨[], ⟨[], rfl, rfl⟩, rfl⟩
  | cons c core ih =>
    rw [List.mem_cons, not_or] at hslash hn
    by_cases hr : c = '\r' ∧ (core ++ v).head? = some '\n'
    · obtain ⟨rfl, hd⟩ := hr
      have hcore : core = [] := by
        cases core with
        | nil => rfl
        | cons d core =>
          have hdn : d = '\n' := by simpa using hd
          exact absurd (List.mem_cons.mpr (.inl hdn.symm)) hn.2
      subst hcore
      refine ⟨[], ⟨['\r'], rfl, rfl⟩, ?_⟩
      have hv : v.head? = some '\n' := hd
      simp [stripped, hv]
    · obtain ⟨u, ⟨b, hb, rfl⟩, hu⟩ := ih hslash.2 hn.2
      refine ⟨c :: u, ⟨b, hb, rfl⟩, ?_⟩
      rw [List.cons_append, stripped_cons (Ne.symm hn.1) (Ne.symm hslash.1) hr, hu]
      rfl

theorem leaves_padded {core text : List Char} (hslash : '/' ∉ core) (hn : '\n' ∉ core)
    (h : Padded core text) : Leaves (Trimmed core) text := by
  obtain ⟨l, r, hl, hr, rfl⟩ := h
  have hright : Leaves (fun u => ∃ w b r, Blank b ∧ Blank r ∧ core = w ++ b ∧ u = w ++ r)
      (core ++ r) := by
    refine (leaves_word hslash hn).append (leaves_gap hr) ?_
    rintro w r ⟨b, hb, hcore⟩ hr
    exact ⟨w, b, r, hb, hr, hcore, rfl⟩
  refine (leaves_gap hl).append hright ?_
  rintro l - hl ⟨w, b, r, hb, hr, rfl, rfl⟩
  refine ⟨?_, fun c hc => ?_⟩
  · rw [Text.trim_prepend_of_blank hl, Text.trim_append_of_blank w hr,
      Text.trim_append_of_blank w hb]
  · rcases List.mem_append.mp hc with hc | hc
    · exact .inl (List.all_eq_true.mp hl c hc)
    · rcases List.mem_append.mp hc with hc | hc
      · exact .inr (List.mem_append_left _ hc)
      · exact .inl (List.all_eq_true.mp hr c hc)

section
variable {α : Type} {sep : Char} {G G' : List Char → Prop} {R Q : α → List Char → Prop}

theorem Spread.leaves {xs : List α} {s : List Char} (h : Spread sep G R xs s)
    (hsep : sep ∉ ['\n', '/', '\r']) (hG : ∀ g, G g → Leaves G' g)
    (hR : ∀ x ∈ xs, ∀ p, R x p → Leaves (Q x) p) : Leaves (Spread sep G' Q xs) s := by
  induction h with
  | gap hg => exact (hG _ hg).mono fun u => .gap
  | item hp => exact (hR _ List.mem_cons_self _ hp).mono fun u => .item
  | gap_cons hg _ ih => exact (hG _ hg).append_cons hsep (ih hR) fun u w => .gap_cons
  | item_cons hp _ ih =>
    have hrest := ih fun x hx => hR x (List.mem_cons_of_mem _ hx)
    exact (hR _ List.mem_cons_self _ hp).append_cons hsep hrest fun u w => .item_cons

end

theorem leaves_chordText {tokens : List (List Char)} {s : List Char} (hp : ProperChord tokens)
    (h : ChordText Padded tokens s) : Leaves (ChordText Trimmed tokens) s := by
  refine Spread.leaves h (by decide) (fun _ => False.elim) fun t ht p => ?_
  have hfree := (hp.2 t ht).free
  exact leaves_padded (hfree '/' (by decide)) (hfree '\n' (by decide))

theorem leaves_patternText {chords : List (List (List Char))} {s : List Char}
    (hp : ProperPattern chords) (h : PatternText Gap Padded chords s) :
    Leaves (PatternText Blank Trimmed chords) s :=
  Spread.leaves h (by decide) (fun _ => leaves_gap) fun c hc _ => leaves_chordText (hp.2 c hc)

theorem leaves_trackText {e : Entry} {s : List Char} (he : ProperEntry e)
    (h : TrackText Gap Padded e s) : Leaves (TrackText Blank Trimmed e) s := by
  obtain ⟨n, b, hn, hb, rfl⟩ := h
  have hfree := he.name.free
  have hname := leaves_padded (hfree '/' (by decide)) (hfree '\n' (by decide)) hn
  have hbody : Leaves (BodyText Blank Trimmed e.patterns) b :=
    Spread.leaves hb (by decide) (fun _ => leaves_gap) fun p hp _ =>
      leaves_patternText (he.patterns p hp)
  exact hname.append_cons (by decide) hbody fun u w hu hw => ⟨u, w, hu, hw, rfl⟩

/-- Without its comments a layout is one with blanks for gaps. -/
theorem LaidOut.withoutComments {entries : List Entry} {source : List Char}
    (hp : ∀ e ∈ entries, ProperEntry e) (h : LaidOut entries source) :
    ScoreText Blank Trimmed entries (withoutComments source) := by
  obtain ⟨s, last, hs, hlast, rfl⟩ := h
  have hleaves : Leaves (ScoreText Blank Trimmed entries) s :=
    Spread.leaves hs (by decide) (fun _ => leaves_gap) fun e he _ => leaves_trackText (hp e he)
  obtain ⟨u, hu, hsu⟩ := hleaves last
  have hnone : stripped false last = [] := by
    rcases hlast with rfl | ⟨t, ht, rfl⟩
    · rfl
    · have hopen := stripped_open ht []
      rw [List.append_nil] at hopen
      simp [stripped, hopen]
  rw [(withoutComments_eq_stripped _).1, hsu, hnone, List.append_nil]
  exact hu

end ScoreSynth.Notation
