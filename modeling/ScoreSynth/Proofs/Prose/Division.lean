import ScoreSynth.Proofs.Prose.Written

/-!
# Where a prose is divided

A text is cut behind each space and behind each eighth character of a run, and there is no other way
to cut it so that every run but the last is closed by one of the two. Pattern by pattern, the
converted score has the chords of all characters, in order.
-/

namespace ScoreSynth.Prose

/-! ## Runs -/

/-- Runs of one to eight characters; a space only ends one, and all but the last are ended. -/
structure Divides (text : List Char) (rs : List (List Char)) : Prop where
  flatten : rs.flatten = text
  length : ∀ r ∈ rs, 1 ≤ r.length ∧ r.length ≤ chordsPerPattern
  inner : ∀ r ∈ rs, ' ' ∉ r.dropLast
  closed : ∀ r ∈ rs.dropLast, r.getLast? = some ' ' ∨ r.length = chordsPerPattern

section
variable {current r s text : List Char} {rs : List (List Char)} {c : Char}

theorem runs_closed (h : c = ' ' ∨ chordsPerPattern ≤ (current ++ [c]).length) (s : List Char) :
    runs current (c :: s) = (current ++ [c]) :: runs [] s := by
  rw [runs]
  exact if_pos (by simpa only [Bool.or_eq_true, decide_eq_true_eq] using h)

theorem runs_open (h : ¬(c = ' ' ∨ chordsPerPattern ≤ (current ++ [c]).length)) (s : List Char) :
    runs current (c :: s) = runs (current ++ [c]) s := by
  rw [runs]
  exact if_neg (by simpa only [Bool.or_eq_true, decide_eq_true_eq] using h)

/-- A run stays open through characters that do not end it. -/
theorem runs_append (current : List Char) (hspace : ' ' ∉ r)
    (hlength : (current ++ r).length < chordsPerPattern) (s : List Char) :
    runs current (r ++ s) = runs (current ++ r) s := by
  induction r generalizing current with
  | nil => rw [List.nil_append, List.append_nil]
  | cons c r ih =>
    rw [List.mem_cons, not_or] at hspace
    have hassoc : current ++ c :: r = (current ++ [c]) ++ r := by simp
    rw [hassoc] at hlength ⊢
    have hopen : ¬(c = ' ' ∨ chordsPerPattern ≤ (current ++ [c]).length) := by
      rw [List.length_append] at hlength
      rintro (h | h)
      · exact hspace.1 h.symm
      · omega
    rw [List.cons_append, runs_open hopen]
    exact ih _ hspace.2 hlength

namespace Divides

theorem nil : Divides [] [] := ⟨rfl, nofun, nofun, nofun⟩

theorem cons (hlength : 1 ≤ r.length ∧ r.length ≤ chordsPerPattern) (hinner : ' ' ∉ r.dropLast)
    (hclosed : rs ≠ [] → r.getLast? = some ' ' ∨ r.length = chordsPerPattern)
    (h : Divides text rs) : Divides (r ++ text) (r :: rs) where
  flatten := by rw [List.flatten_cons, h.flatten]
  length := List.forall_mem_cons.mpr ⟨hlength, h.length⟩
  inner := List.forall_mem_cons.mpr ⟨hinner, h.inner⟩
  closed := by
    by_cases hrs : rs = []
    · rw [hrs]
      nofun
    · rw [List.dropLast_cons_of_ne_nil hrs]
      exact List.forall_mem_cons.mpr ⟨hclosed hrs, h.closed⟩

theorem tail (h : Divides text (r :: rs)) : Divides rs.flatten rs where
  flatten := rfl
  length := (List.forall_mem_cons.mp h.length).2
  inner := (List.forall_mem_cons.mp h.inner).2
  closed := by
    by_cases hrs : rs = []
    · rw [hrs]
      nofun
    · have hclosed := h.closed
      rw [List.dropLast_cons_of_ne_nil hrs] at hclosed
      exact (List.forall_mem_cons.mp hclosed).2

end Divides

/-- From an open run on, the text is divided as it should be. -/
theorem divides_runs (hspace : ' ' ∉ current) (hlength : current.length < chordsPerPattern)
    (text : List Char) : Divides (current ++ text) (runs current text) := by
  induction text generalizing current with
  | nil =>
    rw [runs]
    by_cases hc : current = []
    · subst hc
      exact .nil
    · rw [if_neg (by simpa using hc)]
      refine .cons ⟨List.length_pos_of_ne_nil hc, Nat.le_of_lt hlength⟩ ?_ (absurd rfl) .nil
      exact fun h => hspace (List.mem_of_mem_dropLast h)
  | cons c text ih =>
    have hlast : (current ++ [c]).length = current.length + 1 := List.length_append
    have hassoc : current ++ c :: text = (current ++ [c]) ++ text := by simp
    by_cases hclosed : c = ' ' ∨ chordsPerPattern ≤ (current ++ [c]).length
    · rw [runs_closed hclosed, hassoc]
      refine .cons (by omega) ?_ (fun _ => ?_) (ih List.not_mem_nil (by decide))
      · rwa [List.dropLast_concat]
      · rw [List.getLast?_concat]
        rcases hclosed with rfl | h
        · exact .inl rfl
        · exact .inr (by omega)
    · rw [runs_open hclosed, hassoc]
      rw [not_or] at hclosed
      refine ih ?_ (by omega)
      rw [List.mem_append, List.mem_singleton]
      rintro (h | h)
      · exact hspace h
      · exact hclosed.1 h.symm

theorem Divides.runs_eq (h : Divides text rs) : runs [] text = rs := by
  induction rs generalizing text with
  | nil =>
    rw [← h.flatten]
    rfl
  | cons r rs ih =>
    obtain ⟨⟨hpos, hle⟩, -⟩ := List.forall_mem_cons.mp h.length
    obtain ⟨hinner, -⟩ := List.forall_mem_cons.mp h.inner
    obtain ⟨init, c, rfl⟩ : ∃ init c, r = init ++ [c] :=
      ⟨_, _, (List.dropLast_concat_getLast (List.ne_nil_of_length_pos hpos)).symm⟩
    rw [List.dropLast_concat] at hinner
    rw [List.length_append, List.length_singleton] at hle
    have hfront : runs [] text = runs init (c :: rs.flatten) := by
      rw [← h.flatten, List.flatten_cons, List.append_assoc]
      exact runs_append [] hinner (Nat.lt_of_succ_le hle) _
    by_cases hclosed : c = ' ' ∨ chordsPerPattern ≤ (init ++ [c]).length
    · rw [hfront, runs_closed hclosed, ih h.tail]
    · -- only the last run can be open, as the text ends there
      have hrs : rs = [] := by
        by_contra hrs
        have hends := h.closed
        rw [List.dropLast_cons_of_ne_nil hrs] at hends
        obtain ⟨hlast, -⟩ := List.forall_mem_cons.mp hends
        rw [List.getLast?_concat] at hlast
        exact hclosed (hlast.imp Option.some.inj fun h => Nat.le_of_eq h.symm)
      subst hrs
      rw [hfront, List.flatten_nil, runs_open hclosed, runs, if_neg (by simp)]

/-- No other runs divide the text. -/
theorem runs_eq_iff : runs [] text = rs ↔ Divides text rs := by
  constructor
  · intro rfl
    exact divides_runs List.not_mem_nil (by decide) text
  · exact Divides.runs_eq

example : runs [] "bcdfghjk lm".toList = ["bcdfghjk".toList, " ".toList, "lm".toList] := by decide

end

/-! ## Chords -/

structure StandsFor (c : Char) (ch : Chord) : Prop where
  rest : c = ' ' → ch = ⟨[], .zero⟩
  note : c ≠ ' ' → ∃ p octave b v, ch = ⟨[⟨.melodic p octave, b, v⟩], b⟩ ∧
    (4 ≤ octave ∧ octave ≤ 6) ∧ b.ticks ∈ [480, 720, 960]

theorem baseOctave_le (c : Char) : baseOctave ≤ (degree c).2 := by
  unfold degree
  by_cases hl : c.isLower = true
  · rw [if_pos hl]
    exact le_min (by decide) (Nat.le_add_right _ _)
  · rw [if_neg hl]
    by_cases hd : c.isDigit = true
    · rw [if_pos hd]
    · rw [if_neg hd]

theorem standsFor_chord (c : Char) : StandsFor c (chord c) where
  rest h := by
    subst h
    rfl
  note h := by
    have hlow : (4 : Nat) ≤ (degree c).2 := baseOctave_le c
    have hhigh : (degree c).2 ≤ 6 := octave_le c
    refine ⟨_, _, _, _, chord_of_ne h, ⟨by omega, by omega⟩, ?_⟩
    show (weight c).1.ticks ∈ _
    rcases weight_fst c with hw | hw | hw
    · rw [hw]; decide
    · rw [hw]; decide
    · rw [hw]; decide

theorem chord_notes_eq_nil_iff (c : Char) : (chord c).notes = [] ↔ c = ' ' := by
  have h := isEmpty_chord c
  rw [Chord.isEmpty, Bool.eq_iff_iff, List.isEmpty_iff, beq_iff_eq] at h
  exact h

theorem patterns_of_ne_nil {text : List Char} (h : text ≠ []) :
    patterns text = (runs [] text).map pattern := if_neg (by simpa using h)

/--
Whatever the text, its score is one track with a chord for each character, in order. A pattern has
one to eight chords and no rest but at its end; all patterns but the last end in a rest or are full.
A text without characters gives one pattern without chords.
-/
theorem conversion_divides_text (text : String) :
    ∃ ps, score text = ⟨120, [⟨"piano", ps⟩]⟩ ∧
      List.Forall₂ StandsFor text.toList (ps.flatMap (·.chords)) ∧
      (text = "" → ps = [⟨[]⟩]) ∧
      (text ≠ "" →
        (∀ p ∈ ps, 1 ≤ p.chords.length ∧ p.chords.length ≤ 8 ∧
          ∀ ch ∈ p.chords.dropLast, ch.notes ≠ []) ∧
        ∀ p ∈ ps.dropLast, (∃ ch, p.chords.getLast? = some ch ∧ ch.notes = []) ∨
          p.chords.length = 8) := by
  refine ⟨patterns text.toList, score_eq text, ?_, ?_, fun hne => ?_⟩
  · have hchords : (patterns text.toList).flatMap (·.chords) = text.toList.map chord :=
      chords_track text.toList
    rw [hchords, List.forall₂_map_right_iff]
    exact List.forall₂_same.mpr fun c _ => standsFor_chord c
  · intro rfl
    rfl
  · have hdiv : Divides text.toList (runs [] text.toList) := runs_eq_iff.mp rfl
    have hlength : ∀ r : List Char, (pattern r).chords.length = r.length :=
      fun r => List.length_map chord
    rw [patterns_of_ne_nil fun h => hne (String.toList_eq_nil_iff.mp h)]
    constructor
    · intro p hp
      obtain ⟨r, hr, rfl⟩ := List.mem_map.mp hp
      obtain ⟨hlow, hhigh⟩ := hdiv.length r hr
      rw [hlength]
      refine ⟨hlow, hhigh, fun ch hch hrest => ?_⟩
      have hch : ch ∈ r.dropLast.map chord := by rwa [List.map_dropLast]
      obtain ⟨c, hc, rfl⟩ := List.mem_map.mp hch
      rw [(chord_notes_eq_nil_iff c).mp hrest] at hc
      exact hdiv.inner r hr hc
    · intro p hp
      rw [← List.map_dropLast] at hp
      obtain ⟨r, hr, rfl⟩ := List.mem_map.mp hp
      rw [hlength]
      refine (hdiv.closed r hr).imp_left fun hlast => ⟨chord ' ', ?_, rfl⟩
      show (r.map chord).getLast? = _
      rw [List.getLast?_map, hlast]
      rfl

end ScoreSynth.Prose
