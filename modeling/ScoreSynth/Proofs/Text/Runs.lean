import ScoreSynth.Proofs.Text.Pieces
import ScoreSynth.Proofs.Text.Trim

/-!
# Runs in a text that is cut

Characters that stand side by side in a text still do so after it was cut, as long as none of them
is cut away: a run without the separator is found again in one of the pieces.
-/

namespace ScoreSynth.Text

variable {sep : Char} {w s t : List Char}

theorem prefix_of_prefix_append_cons (hsep : sep ∉ w) (h : w <+: s ++ sep :: t) : w <+: s := by
  rcases List.prefix_or_prefix_of_prefix h (List.prefix_append s _) with hw | ⟨u, rfl⟩
  · exact hw
  · rw [List.prefix_append_right_inj] at h
    cases u with
    | nil => exact (List.append_nil s).symm ▸ List.prefix_rfl
    | cons c u =>
      obtain ⟨rfl, -⟩ := List.cons_prefix_cons.mp h
      exact absurd (List.mem_append_right s List.mem_cons_self) hsep

/-- A run without the separator lies on one side of it. -/
theorem infix_of_infix_append_cons (hsep : sep ∉ w) (h : w <:+: s ++ sep :: t) :
    w <:+: s ∨ w <:+: t := by
  induction s with
  | nil =>
    rcases List.infix_cons_iff.mp h with h | h
    · -- a run that begins with no separator is empty
      have hnil : w <+: [] := prefix_of_prefix_append_cons (s := []) hsep h
      exact .inl hnil.isInfix
    · exact .inr h
  | cons c s ih =>
    rcases List.infix_cons_iff.mp h with h | h
    · exact .inl (prefix_of_prefix_append_cons (s := c :: s) hsep h).isInfix
    · exact (ih h).imp_left fun h => List.infix_cons h

theorem exists_piece_of_infix (hsep : sep ∉ w) {ls : List (List Char)} (hne : ls ≠ [])
    (h : w <:+: [sep].intercalate ls) : ∃ l ∈ ls, w <:+: l := by
  induction ls with
  | nil => exact absurd rfl hne
  | cons l ls ih =>
    cases ls with
    | nil => exact ⟨l, List.mem_cons_self, by simpa using h⟩
    | cons m ls =>
      rw [List.intercalate_cons_cons, List.append_assoc, List.singleton_append] at h
      rcases infix_of_infix_append_cons hsep h with h | h
      · exact ⟨l, List.mem_cons_self, h⟩
      · obtain ⟨p, hp, hw⟩ := ih (List.cons_ne_nil m ls) h
        exact ⟨p, List.mem_cons_of_mem l hp, hw⟩

theorem exists_splitOn_of_infix (hsep : sep ∉ w) (h : w <:+: s) : ∃ l ∈ s.splitOn sep, w <:+: l :=
  exists_piece_of_infix hsep (List.splitOn_ne_nil _ _) (by rwa [List.intercalate_splitOn])

/-! ## Ends of a text -/

/-- Blanks at the ends of a text are no part of a run without blanks at its ends. -/
theorem shrinks_isInfix (hne : w ≠ []) (hw : Tight w) : Shrinks (w <:+: ·) where
  left c s hc h := by
    rcases List.infix_cons_iff.mp h with h | h
    · obtain ⟨d, w, rfl⟩ := List.exists_cons_of_ne_nil hne
      obtain ⟨rfl, -⟩ := List.cons_prefix_cons.mp h
      have hd := hw.1 d rfl
      rw [hc] at hd
      cases hd
    · exact h
  right s c hc h := by
    rcases List.infix_concat_iff.mp h with h | h
    · obtain ⟨v, d, rfl⟩ := (List.eq_nil_or_concat w).resolve_left hne
      obtain ⟨u, hu⟩ := h
      obtain ⟨-, hlast⟩ := List.append_inj' (by simpa using hu : (u ++ v) ++ [d] = s ++ [c]) rfl
      have hd := hw.2 d (by simp)
      rw [List.cons.inj hlast |>.1, hc] at hd
      cases hd
    · exact h

theorem infix_trim (hne : w ≠ []) (hw : Tight w) (h : w <:+: s) : w <:+: trim s :=
  (shrinks_isInfix hne hw).trim h

theorem infix_dropReturn (hne : w ≠ []) (hreturn : '\r' ∉ w) (h : w <:+: s) :
    w <:+: dropReturn s := by
  unfold dropReturn
  split
  · rename_i hlast
    obtain ⟨u, rfl⟩ := List.getLast?_eq_some_iff.mp hlast
    rw [List.dropLast_concat]
    rcases infix_of_infix_append_cons hreturn h with h | h
    · exact h
    · exact absurd (List.infix_nil.mp h) hne
  · exact h

theorem exists_linesOf_of_infix (hne : w ≠ []) (hreturn : '\r' ∉ w) {ls : List (List Char)}
    {l : List Char} (hl : l ∈ ls) (h : w <:+: l) : ∃ m ∈ linesOf ls, w <:+: m := by
  induction ls with
  | nil => cases hl
  | cons k ls ih =>
    cases ls with
    | nil =>
      obtain rfl := List.mem_singleton.mp hl
      have hl : l ≠ [] := fun hnil => hne (List.infix_nil.mp (hnil ▸ h))
      exact ⟨l, by simp [linesOf, hl], h⟩
    | cons j ls =>
      rcases List.mem_cons.mp hl with rfl | hl
      · exact ⟨dropReturn l, List.mem_cons_self, infix_dropReturn hne hreturn h⟩
      · obtain ⟨m, hm, hw⟩ := ih hl
        exact ⟨m, List.mem_cons_of_mem _ hm, hw⟩

theorem infix_of_mem_linesOf {ls : List (List Char)} {m : List Char} (hm : m ∈ linesOf ls) :
    ∃ l ∈ ls, m <:+: l := by
  induction ls with
  | nil => cases hm
  | cons l ls ih =>
    cases ls with
    | nil =>
      unfold linesOf at hm
      split at hm
      · cases hm
      · exact ⟨l, List.mem_cons_self, List.mem_singleton.mp hm ▸ List.infix_rfl⟩
    | cons k ls =>
      rcases List.mem_cons.mp hm with rfl | hm
      · refine ⟨l, List.mem_cons_self, ?_⟩
        unfold dropReturn
        split
        · exact (List.dropLast_prefix l).isInfix
        · exact List.infix_rfl
      · obtain ⟨p, hp, hmp⟩ := ih hm
        exact ⟨p, List.mem_cons_of_mem l hp, hmp⟩

theorem infix_of_mem_lines (h : t ∈ lines s) : t <:+: s := by
  obtain ⟨l, hl, ht⟩ := infix_of_mem_linesOf h
  exact ht.trans (infix_of_mem_splitOn hl)

/-- A run that goes over no line end stands in one line. -/
theorem exists_line_of_infix (hne : w ≠ []) (hfeed : '\n' ∉ w) (hreturn : '\r' ∉ w)
    (h : w <:+: s) : ∃ l ∈ lines s, w <:+: l := by
  obtain ⟨l, hl, hw⟩ := exists_splitOn_of_infix hfeed h
  exact exists_linesOf_of_infix hne hreturn hl hw

end ScoreSynth.Text
