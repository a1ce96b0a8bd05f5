import Mathlib.Logic.Relation
import ScoreSynth.Proofs.Text.Runs

/-!
# Cutting a text up

A text is cut up piece by piece: a piece is split wherever a separator stands or only at the first,
loses the blanks at its ends, or is passed over if it is all blank. In whatever order that is done
and for however many of the separators, a run stands whole in one of the pieces if no separator is
in it and no blank at its ends.
-/

namespace ScoreSynth.Text

variable {separators : List Char}

inductive Parts (separators : List Char) : List Char → List (List Char) → Prop where
  | split {sep : Char} (p : List Char) : sep ∈ separators → Parts separators p (p.splitOn sep)
  | halve {sep : Char} {p a b : List Char} : sep ∈ separators → cut sep p = some (a, b) →
      Parts separators p [a, b]
  | trim (p : List Char) : Parts separators p [trim p]
  | blank {p : List Char} : allBlank p = true → Parts separators p []

inductive CutOnce (separators : List Char) : List (List Char) → List (List Char) → Prop where
  | mk {p : List Char} {parts : List (List Char)} (before after : List (List Char)) :
      Parts separators p parts →
        CutOnce separators (before ++ p :: after) (before ++ (parts ++ after))

def CutsInto (separators : List Char) : List (List Char) → List (List Char) → Prop :=
  Relation.ReflTransGen (CutOnce separators)

/-! ## Runs that stay whole -/

structure Uncut (separators : List Char) (w : List Char) : Prop where
  ne_nil : w ≠ []
  tight : Tight w
  not_mem : ∀ sep ∈ separators, sep ∉ w

section
variable {w p : List Char} {parts ps qs : List (List Char)}

theorem Uncut.allBlank (hw : Uncut separators w) : allBlank w = false := by
  rw [Bool.eq_false_iff]
  intro h
  rw [← trim_eq_nil_iff, hw.tight.trim_eq] at h
  exact hw.ne_nil h

theorem Uncut.exists_part (hw : Uncut separators w) (h : Parts separators p parts)
    (hp : w <:+: p) : ∃ q ∈ parts, w <:+: q := by
  cases h with
  | split _ hsep => exact exists_splitOn_of_infix (hw.not_mem _ hsep) hp
  | halve hsep hcut =>
    obtain ⟨rfl, -⟩ := cut_eq_some hcut
    rcases infix_of_infix_append_cons (hw.not_mem _ hsep) hp with h | h
    · exact ⟨_, List.mem_cons_self, h⟩
    · exact ⟨_, List.mem_cons_of_mem _ List.mem_cons_self, h⟩
  | trim => exact ⟨_, List.mem_cons_self, infix_trim hw.ne_nil hw.tight hp⟩
  | blank hb =>
    -- the run would be blank with the piece it stands in
    have hall : Text.allBlank w = true :=
      List.all_eq_true.mpr fun c hc => List.all_eq_true.mp hb c (hp.subset hc)
    rw [hw.allBlank] at hall
    cases hall

theorem Uncut.exists_cutOnce (hw : Uncut separators w) (h : CutOnce separators ps qs)
    (hp : ∃ p ∈ ps, w <:+: p) : ∃ q ∈ qs, w <:+: q := by
  obtain ⟨before, after, hparts⟩ := h
  obtain ⟨p, hmem, hp⟩ := hp
  rcases List.mem_append.mp hmem with hb | ha
  · exact ⟨p, List.mem_append_left _ hb, hp⟩
  · rcases List.mem_cons.mp ha with rfl | ha
    · obtain ⟨q, hq, hwq⟩ := hw.exists_part hparts hp
      exact ⟨q, List.mem_append_right _ (List.mem_append_left _ hq), hwq⟩
    · exact ⟨p, List.mem_append_right _ (List.mem_append_right _ ha), hp⟩

theorem Uncut.exists_cutsInto (hw : Uncut separators w) (h : CutsInto separators ps qs)
    (hp : ∃ p ∈ ps, w <:+: p) : ∃ q ∈ qs, w <:+: q := by
  induction h with
  | refl => exact hp
  | tail _ hstep ih => exact hw.exists_cutOnce hstep ih

end

/-! ## Cuts one after the other -/

section
variable {p : List Char} {parts ps qs rs : List (List Char)}

theorem cutsInto_refl (ps : List (List Char)) : CutsInto separators ps ps := .refl

theorem CutsInto.trans (h : CutsInto separators ps qs) (h' : CutsInto separators qs rs) :
    CutsInto separators ps rs :=
  Relation.ReflTransGen.trans h h'

theorem Parts.cutsInto (h : Parts separators p parts) : CutsInto separators [p] parts := by
  have hstep := CutOnce.mk [] [] h
  rw [List.append_nil] at hstep
  exact .single hstep

theorem CutOnce.among (h : CutOnce separators ps qs) (before after : List (List Char)) :
    CutOnce separators (before ++ (ps ++ after)) (before ++ (qs ++ after)) := by
  obtain ⟨b, a, hparts⟩ := h
  have hstep := CutOnce.mk (before ++ b) (a ++ after) hparts
  simpa using hstep

theorem CutsInto.among (h : CutsInto separators ps qs) (before after : List (List Char)) :
    CutsInto separators (before ++ (ps ++ after)) (before ++ (qs ++ after)) := by
  induction h with
  | refl => exact .refl
  | tail _ hstep ih => exact ih.tail (hstep.among before after)

/-- Each piece may be cut in its own way. -/
theorem cutsInto_flatMap {f : List Char → List (List Char)}
    (h : ∀ p ∈ ps, CutsInto separators [p] (f p)) : CutsInto separators ps (ps.flatMap f) := by
  induction ps with
  | nil => exact .refl
  | cons p ps ih =>
    have hfirst : CutsInto separators (p :: ps) (f p ++ ps) :=
      (h p List.mem_cons_self).among [] ps
    have hrest : CutsInto separators (f p ++ ps) (f p ++ ps.flatMap f) := by
      have hall := (ih fun q hq => h q (List.mem_cons_of_mem p hq)).among (f p) []
      simpa using hall
    exact hfirst.trans hrest

theorem cutsInto_filter_not_allBlank (ps : List (List Char)) :
    CutsInto separators ps (ps.filter fun p => !allBlank p) := by
  have heq : (ps.filter fun p => !allBlank p) =
      ps.flatMap fun p => if allBlank p then [] else [p] := by
    induction ps with
    | nil => rfl
    | cons p ps ih => cases h : allBlank p <;> simp [h, ih]
  rw [heq]
  refine cutsInto_flatMap fun p _ => ?_
  by_cases h : allBlank p = true
  · rw [if_pos h]
    exact (Parts.blank h).cutsInto
  · rw [if_neg h]
    exact .refl

end

end ScoreSynth.Text
