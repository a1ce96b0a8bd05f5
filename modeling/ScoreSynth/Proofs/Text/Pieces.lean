import Mathlib.Data.List.Chain
import ScoreSynth.Text.Split

/-!
# Pieces and neighbours

What a text put together from pieces holds, and which two characters never stand side by side in it.
A text is cut and split where it was put together.
-/

namespace ScoreSynth.Text

variable {sep a b : Char}

theorem cut_append_cons {s : List Char} (h : sep ∉ s) (t : List Char) :
    cut sep (s ++ sep :: t) = some (s, t) := by
  induction s with
  | nil => simp [cut]
  | cons c s ih =>
    rw [List.mem_cons, not_or] at h
    rw [List.cons_append, cut, if_neg (Ne.symm h.1), ih h.2]
    rfl

theorem cut_append_of_not_mem (s : List Char) {t : List Char} (h : sep ∉ t) :
    cut sep (s ++ t) = (cut sep s).map fun p => (p.1, p.2 ++ t) := by
  induction s with
  | nil => simp [cut, cut_eq_none_iff.mpr h]
  | cons c s ih =>
    by_cases hc : c = sep
    · simp [cut, hc]
    · simp [cut, hc, ih, Function.comp_def]

theorem map_eq_self {α : Type} {f : α → α} {xs : List α} (h : ∀ x ∈ xs, f x = x) :
    xs.map f = xs := by
  conv_rhs => rw [← List.map_id xs]
  exact List.map_congr_left h

/-! ## Pieces -/

theorem mem_intercalate {ls : List (List Char)} {c : Char} (hc : c ∈ [sep].intercalate ls) :
    c = sep ∨ ∃ l ∈ ls, c ∈ l := by
  induction ls with
  | nil => cases hc
  | cons l ls ih =>
    cases ls with
    | nil => exact .inr ⟨l, List.mem_singleton_self l, by simpa using hc⟩
    | cons m ls =>
      rw [List.intercalate_cons_cons, List.mem_append, List.mem_append] at hc
      rcases hc with (hc | hc) | hc
      · exact .inr ⟨l, List.mem_cons_self, hc⟩
      · exact .inl (List.mem_singleton.mp hc)
      · refine (ih hc).imp id ?_
        rintro ⟨p, hp, hcp⟩
        exact ⟨p, List.mem_cons_of_mem _ hp, hcp⟩

theorem infix_intercalate (sep : Char) {ls : List (List Char)} {l : List Char} (hl : l ∈ ls) :
    l <:+: [sep].intercalate ls := by
  induction ls with
  | nil => cases hl
  | cons m ls ih =>
    cases ls with
    | nil =>
      have hm : [sep].intercalate [m] = l := by
        rw [List.intercalate_singleton, List.mem_singleton.mp hl]
      exact hm ▸ List.infix_rfl
    | cons n ls =>
      rw [List.intercalate_cons_cons]
      rcases List.mem_cons.mp hl with rfl | hl
      · exact ⟨[], [sep] ++ [sep].intercalate (n :: ls), by simp⟩
      · exact (ih hl).trans (List.suffix_append _ _).isInfix

theorem intercalate_ne_nil {ls : List (List Char)} (hne : ls ≠ [])
    (h : ∀ l ∈ ls, l ≠ []) : [sep].intercalate ls ≠ [] := by
  obtain ⟨l, hl⟩ := List.exists_mem_of_ne_nil ls hne
  intro hnil
  have hi := infix_intercalate sep hl
  rw [hnil] at hi
  exact h l hl (List.infix_nil.mp hi)

theorem intercalate_concat {ls : List (List Char)} (h : ls ≠ []) (p : List Char) :
    [sep].intercalate (ls ++ [p]) = [sep].intercalate ls ++ sep :: p := by
  induction ls with
  | nil => exact absurd rfl h
  | cons l ls ih =>
    cases ls with
    | nil => simp
    | cons m ls =>
      rw [List.cons_append, List.cons_append, List.intercalate_cons_cons, ← List.cons_append,
        ih (List.cons_ne_nil m ls), List.intercalate_cons_cons]
      simp

/-- Pieces with an end mark after each are joined with an empty piece at the end. -/
theorem flatten_concat (ls : List (List Char)) :
    (ls.map fun p => p ++ [sep]).flatten = [sep].intercalate (ls ++ [[]]) := by
  induction ls with
  | nil => rfl
  | cons l ls ih =>
    rw [List.map_cons, List.flatten_cons, ih, List.cons_append,
      List.intercalate_cons_of_ne_nil (List.append_ne_nil_of_right_ne_nil _ (List.cons_ne_nil _ _))]

theorem infix_of_mem_splitOn {s l : List Char} (h : l ∈ s.splitOn sep) : l <:+: s := by
  have := infix_intercalate sep h
  rwa [List.intercalate_splitOn] at this

theorem not_mem_of_mem_splitOn {s l : List Char} (h : l ∈ s.splitOn sep) : sep ∉ l := by
  induction s generalizing l with
  | nil =>
    rw [List.splitOn_nil, List.mem_singleton] at h
    rw [h]
    exact List.not_mem_nil
  | cons c s ih =>
    rw [List.splitOn_cons_eq_if_modifyHead] at h
    split at h
    · rcases List.mem_cons.mp h with rfl | h
      · exact List.not_mem_nil
      · exact ih h
    · rename_i hc
      cases hs : s.splitOn sep with
      | nil => exact absurd hs (List.splitOn_ne_nil _ _)
      | cons p ps =>
        rw [hs, List.modifyHead_cons] at h
        rw [hs] at ih
        rcases List.mem_cons.mp h with rfl | h
        · rw [List.mem_cons, not_or]
          exact ⟨fun h => hc (by simp [h]), ih List.mem_cons_self⟩
        · exact ih (List.mem_cons_of_mem _ h)

/-- What stands at the end stands behind any separator. -/
theorem concat_eq_append_cons {s p u : List Char} {c : Char} (h : s ++ [c] = p ++ sep :: u)
    (hc : c ≠ sep) : ∃ w, u = w ++ [c] ∧ s = p ++ sep :: w := by
  rcases List.eq_nil_or_concat u with rfl | ⟨w, d, rfl⟩
  · exact absurd (List.cons.inj (List.append_inj' h rfl).2).1 hc
  · have hd : s ++ [c] = (p ++ sep :: w) ++ [d] := by simpa using h
    obtain ⟨rfl, hlast⟩ := List.append_inj' hd rfl
    exact ⟨w, by simpa using hlast.symm, rfl⟩

/-- What is put behind a text without a separator in it goes to the last piece. -/
theorem splitOn_append_of_not_mem (sep : Char) (s : List Char) : ∃ ps p, ∀ t, sep ∉ t →
    (s ++ t).splitOn sep = ps ++ [p ++ t] := by
  induction s with
  | nil =>
    refine ⟨[], [], fun t ht => ?_⟩
    simpa using List.splitOn_intercalate sep (by simpa using ht : ∀ l ∈ [t], sep ∉ l) (by simp)
  | cons c s ih =>
    obtain ⟨ps, p, h⟩ := ih
    by_cases hc : c = sep
    · refine ⟨[] :: ps, p, fun t ht => ?_⟩
      simp [List.splitOn_cons_eq_if_modifyHead, hc, h t ht]
    · cases ps with
      | nil =>
        refine ⟨[], c :: p, fun t ht => ?_⟩
        simp [List.splitOn_cons_eq_if_modifyHead, hc, h t ht]
      | cons q ps =>
        refine ⟨(c :: q) :: ps, p, fun t ht => ?_⟩
        simp [List.splitOn_cons_eq_if_modifyHead, hc, h t ht]

/-! ## Pieces in the order of a text -/

inductive Successive : List (List Char) → List Char → Prop where
  | nil (s : List Char) : Successive [] s
  | cons (gap p : List Char) {ps : List (List Char)} {s : List Char} :
      Successive ps s → Successive (p :: ps) (gap ++ (p ++ s))

section
variable {ps qs : List (List Char)} {s t : List Char}

theorem Successive.prepend (h : Successive ps s) (l : List Char) : Successive ps (l ++ s) := by
  cases h with
  | nil s => exact .nil _
  | cons gap p h =>
    rw [← List.append_assoc]
    exact .cons _ _ h

theorem Successive.append (hs : Successive ps s) (ht : Successive qs t) :
    Successive (ps ++ qs) (s ++ t) := by
  induction hs with
  | nil s => exact ht.prepend s
  | cons gap p h ih =>
    rw [List.append_assoc, List.append_assoc]
    exact .cons gap p ih

theorem Successive.of_isInfix (h : Successive ps s) (hst : s <:+: t) : Successive ps t := by
  obtain ⟨l, r, rfl⟩ := hst
  have hr := (h.prepend l).append (.nil r)
  rwa [List.append_nil] at hr

theorem Successive.singleton (p : List Char) : Successive [p] p := by
  simpa using Successive.cons [] p (.nil [])

theorem Successive.sublist (h : Successive ps s) (hq : qs.Sublist ps) : Successive qs s := by
  induction h generalizing qs with
  | nil s =>
    rw [List.sublist_nil.mp hq]
    exact .nil s
  | cons gap p h ih =>
    cases hq with
    | cons _ hq => exact ((ih hq).prepend p).prepend gap
    | cons_cons _ hq => exact .cons gap p (ih hq)

/-- Each piece may be cut further. -/
theorem Successive.flatMap {f : List Char → List (List Char)} (h : Successive ps s)
    (hf : ∀ p ∈ ps, Successive (f p) p) : Successive (ps.flatMap f) s := by
  induction h with
  | nil s => exact .nil s
  | cons gap p h ih =>
    rw [List.flatMap_cons]
    have hrest := ih fun q hq => hf q (List.mem_cons_of_mem _ hq)
    exact ((hf p List.mem_cons_self).append hrest).prepend gap

theorem successive_splitOn (sep : Char) (s : List Char) : Successive (s.splitOn sep) s := by
  have hjoin : ∀ ls : List (List Char), Successive ls ([sep].intercalate ls) := by
    intro ls
    induction ls with
    | nil => exact .nil _
    | cons l ls ih =>
      cases ls with
      | nil => simpa using Successive.singleton l
      | cons m ls =>
        rw [List.intercalate_cons_cons, List.append_assoc]
        exact .cons [] l (ih.prepend [sep])
  have h := hjoin (s.splitOn sep)
  rwa [List.intercalate_splitOn] at h

end

/-! ## Neighbours -/

def Apart (a b : Char) (s : List Char) : Prop := s.IsChain fun c d => ¬(c = a ∧ d = b)

theorem apart_iff {s : List Char} : Apart a b s ↔ ¬[a, b] <:+: s := by
  unfold Apart
  rw [List.isChain_iff_forall_rel_of_append_cons_cons]
  constructor
  · rintro h ⟨l, r, hs⟩
    exact h (by rw [← hs]; simp : s = l ++ a :: b :: r) ⟨rfl, rfl⟩
  · rintro h c d l r hs ⟨rfl, rfl⟩
    exact h ⟨l, r, by rw [hs]; simp⟩

theorem Apart.of_isInfix {s t : List Char} (h : Apart a b s) (ht : t <:+: s) : Apart a b t :=
  List.IsChain.infix h ht

theorem apart_of_not_mem {s : List Char} (h : a ∉ s ∨ b ∉ s) : Apart a b s := by
  rw [apart_iff]
  intro hi
  have hsub := hi.subset
  rcases h with h | h
  · exact h (hsub List.mem_cons_self)
  · exact h (hsub (List.mem_cons_of_mem _ List.mem_cons_self))

theorem apart_append {s t : List Char} : Apart a b (s ++ t) ↔
    Apart a b s ∧ Apart a b t ∧ ∀ c ∈ s.getLast?, ∀ d ∈ t.head?, ¬(c = a ∧ d = b) :=
  List.isChain_append

/-- A third character keeps its neighbours apart. -/
theorem apart_append_cons {s t : List Char} (ha : sep ≠ a) (hb : sep ≠ b) :
    Apart a b (s ++ sep :: t) ↔ Apart a b s ∧ Apart a b t := by
  have hcons : Apart a b (sep :: t) ↔ Apart a b t := by
    unfold Apart
    rw [List.isChain_cons]
    exact ⟨fun h => h.2, fun h => ⟨fun _ _ h => ha h.1, h⟩⟩
  rw [apart_append, hcons]
  constructor
  · rintro ⟨hs, ht, -⟩
    exact ⟨hs, ht⟩
  · rintro ⟨hs, ht⟩
    refine ⟨hs, ht, ?_⟩
    rintro c - d hd ⟨-, rfl⟩
    exact hb (Option.some.inj hd)

theorem apart_intercalate {ls : List (List Char)} (ha : sep ≠ a) (hb : sep ≠ b)
    (h : ∀ l ∈ ls, Apart a b l) : Apart a b ([sep].intercalate ls) := by
  induction ls with
  | nil => exact .nil
  | cons l ls ih =>
    cases ls with
    | nil =>
      rw [List.intercalate_singleton]
      exact h l (List.mem_singleton_self l)
    | cons m ls =>
      rw [List.intercalate_cons_cons, List.append_assoc]
      exact (apart_append_cons ha hb).mpr
        ⟨h l List.mem_cons_self, ih fun l hl => h l (List.mem_cons_of_mem _ hl)⟩

/-! ## Lines -/

theorem linesOf_eq_self {ls : List (List Char)} (hr : ∀ l ∈ ls.dropLast, l.getLast? ≠ some '\r')
    (he : ls.getLast? ≠ some []) : linesOf ls = ls := by
  induction ls with
  | nil => rfl
  | cons l ls ih =>
    cases ls with
    | nil =>
      have : l ≠ [] := fun h => he (by rw [h]; rfl)
      simp [linesOf, this]
    | cons m ls =>
      rw [List.dropLast_cons_of_ne_nil (List.cons_ne_nil m ls)] at hr
      rw [linesOf, dropReturn, if_neg (hr l List.mem_cons_self),
        ih (fun k hk => hr k (List.mem_cons_of_mem _ hk)) (by rwa [List.getLast?_cons_cons] at he)]
      exact List.cons_ne_nil m ls

theorem infix_intercalate_of_mem_dropLast (sep : Char) {ls : List (List Char)} {l : List Char}
    (hl : l ∈ ls.dropLast) : l ++ [sep] <:+: [sep].intercalate ls := by
  induction ls with
  | nil => cases hl
  | cons m ls ih =>
    cases ls with
    | nil => cases hl
    | cons n ls =>
      rw [List.dropLast_cons_of_ne_nil (List.cons_ne_nil n ls)] at hl
      rw [List.intercalate_cons_cons]
      rcases List.mem_cons.mp hl with rfl | hl
      · exact (List.prefix_append _ _).isInfix
      · exact (ih hl).trans (List.suffix_append _ _).isInfix

/-- A last piece that is empty means that the text is empty or ends in a separator. -/
theorem getLast?_splitOn_of_getLast? {s : List Char} {c : Char} (hs : s.getLast? = some c)
    (hc : c ≠ sep) : (s.splitOn sep).getLast? ≠ some [] := by
  obtain ⟨t, rfl⟩ := List.getLast?_eq_some_iff.mp hs
  intro h
  obtain ⟨ls, hls⟩ := List.getLast?_eq_some_iff.mp h
  have hi : [sep].intercalate ((t ++ [c]).splitOn sep) = t ++ [c] := List.intercalate_splitOn sep
  rw [hls] at hi
  rcases eq_or_ne ls [] with rfl | hne
  · simp at hi
  · rw [intercalate_concat hne] at hi
    exact hc (by simpa using (List.append_inj' hi rfl).2.symm)

theorem lines_eq_splitOn {s : List Char} {c : Char} (hr : Apart '\r' '\n' s)
    (hs : s.getLast? = some c) (hc : c ≠ '\n') : lines s = s.splitOn '\n' := by
  refine linesOf_eq_self (fun l hl hlast => ?_) (getLast?_splitOn_of_getLast? hs hc)
  have hi := infix_intercalate_of_mem_dropLast '\n' hl
  rw [List.intercalate_splitOn] at hi
  obtain ⟨t, rfl⟩ := List.getLast?_eq_some_iff.mp hlast
  exact apart_iff.mp hr (.trans ⟨t, [], by simp⟩ hi)

theorem beforeSlashes_eq_self {s : List Char} (h : Apart '/' '/' s) : beforeSlashes s = s := by
  fun_induction beforeSlashes s with
  | case1 s => exact absurd ⟨[], s, rfl⟩ (apart_iff.mp h)
  | case2 c s hne ih => rw [ih (h.of_isInfix (List.suffix_cons c s).isInfix)]
  | case3 => rfl

theorem apart_beforeSlashes (s : List Char) : Apart '/' '/' (beforeSlashes s) := by
  fun_induction beforeSlashes s with
  | case1 s => exact .nil
  | case2 c s hne ih =>
    refine List.isChain_cons.mpr ⟨?_, ih⟩
    rintro d hd ⟨rfl, rfl⟩
    -- the second slash was already there
    cases s with
    | nil => cases hd
    | cons e s =>
      have : e = '/' := by
        unfold beforeSlashes at hd
        split at hd
        · cases hd
        · simp_all
        · cases hd
      exact hne s rfl (by rw [this])
  | case3 => exact .nil

end ScoreSynth.Text
