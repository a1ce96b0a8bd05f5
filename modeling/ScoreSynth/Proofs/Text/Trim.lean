import ScoreSynth.Text.Blank

/-!
# What trimming leaves

A trimmed text has no blank at either end, is a piece of the text it was trimmed from, and is empty
only if there was nothing but blanks.
-/

namespace ScoreSynth.Text

def Tight (s : List Char) : Prop :=
  (∀ c ∈ s.head?, isBlank c = false) ∧ ∀ c ∈ s.getLast?, isBlank c = false

theorem trimRight_eq (s : List Char) : trimRight s = (trimLeft s.reverse).reverse := rfl

theorem trimLeft_eq_self {s : List Char} (h : ∀ c ∈ s.head?, isBlank c = false) :
    trimLeft s = s := by
  cases s with
  | nil => rfl
  | cons c s => exact List.dropWhile_cons_of_neg (by simp [h c rfl])

theorem trimRight_eq_self {s : List Char} (h : ∀ c ∈ s.getLast?, isBlank c = false) :
    trimRight s = s := by
  rw [trimRight_eq, trimLeft_eq_self (by rwa [List.head?_reverse]), List.reverse_reverse]

theorem Tight.trim_eq {s : List Char} (h : Tight s) : trim s = s := by
  unfold trim
  rw [trimLeft_eq_self h.1, trimRight_eq_self h.2]

theorem trimRight_isPrefix (s : List Char) : trimRight s <+: s := by
  have h := List.reverse_prefix.mpr (List.dropWhile_suffix isBlank (l := s.reverse))
  rwa [List.reverse_reverse] at h

theorem trim_isInfix (s : List Char) : trim s <:+: s :=
  (trimRight_isPrefix _).isInfix.trans (List.dropWhile_suffix isBlank).isInfix

theorem tight_trim (s : List Char) : Tight (trim s) := by
  constructor
  · obtain ⟨t, ht⟩ := trimRight_isPrefix (trimLeft s)
    have h := head_trimLeft s
    rw [← ht, List.head?_append] at h
    intro c hc
    have hc' : (trimRight (trimLeft s)).head? = some c := hc
    exact h c (by rw [hc']; rfl)
  · unfold trim
    rw [trimRight_eq, List.getLast?_reverse]
    exact head_trimLeft _

theorem tight_iff {s : List Char} : Tight s ↔ trim s = s := by
  constructor
  · exact Tight.trim_eq
  · intro h
    rw [← h]
    exact tight_trim s

instance : DecidablePred Tight := fun _ => decidable_of_iff' _ tight_iff

theorem trim_trim (s : List Char) : trim (trim s) = trim s := (tight_trim s).trim_eq

theorem trim_cons_of_blank {c : Char} (hc : isBlank c = true) (s : List Char) :
    trim (c :: s) = trim s := by
  unfold trim trimLeft
  rw [List.dropWhile_cons_of_pos hc]

/-! ## Blank padding -/

theorem allBlank_append (s t : List Char) : allBlank (s ++ t) = (allBlank s && allBlank t) :=
  List.all_append

theorem trimLeft_eq_nil_iff {s : List Char} : trimLeft s = [] ↔ allBlank s = true := by
  induction s with
  | nil => simp [trimLeft, allBlank]
  | cons c s ih =>
    by_cases hc : isBlank c = true
    · simp_all [trimLeft, allBlank]
    · simp [trimLeft, allBlank, hc]

theorem trim_append_of_blank (s : List Char) {b : List Char} (h : allBlank b = true) :
    trim (s ++ b) = trim s := by
  have hr : ∀ t, trimRight (t ++ b) = trimRight t := by
    intro t
    have hb : ∀ c ∈ b.reverse, isBlank c = true := by simpa [allBlank] using h
    unfold trimRight
    rw [List.reverse_append, List.dropWhile_append_of_pos hb]
  unfold trim
  by_cases hs : trimLeft s = []
  · have hsb : trimLeft (s ++ b) = trimLeft b := by
      unfold trimLeft at hs ⊢
      rw [List.dropWhile_append, hs]
      rfl
    rw [hs, hsb, trimLeft_eq_nil_iff.mpr h]
  · have hsb : trimLeft (s ++ b) = trimLeft s ++ b := by
      unfold trimLeft at hs ⊢
      rw [List.dropWhile_append, if_neg (by simpa using hs)]
    rw [hsb, hr]

theorem trim_prepend_of_blank {b : List Char} (h : allBlank b = true) (s : List Char) :
    trim (b ++ s) = trim s := by
  unfold trim trimLeft
  rw [List.dropWhile_append_of_pos (List.all_eq_true.mp h)]

theorem not_mem_of_allBlank {b : List Char} {c : Char} (h : allBlank b = true)
    (hc : isBlank c = false) : c ∉ b := by
  intro hm
  have hb := List.all_eq_true.mp h c hm
  rw [hc] at hb
  cases hb

theorem allBlank_trimLeft (s : List Char) : allBlank (trimLeft s) = allBlank s := by
  induction s with
  | nil => rfl
  | cons c s ih =>
    by_cases hc : isBlank c = true
    · simp_all [trimLeft, allBlank]
    · simp [trimLeft, hc]

theorem trim_eq_nil_iff {s : List Char} : trim s = [] ↔ allBlank s = true := by
  unfold trim
  rw [trimRight_eq, List.reverse_eq_nil_iff, trimLeft_eq_nil_iff, allBlank, List.all_reverse]
  exact Iff.of_eq (congrArg (· = true) (allBlank_trimLeft s))

theorem tight_of_forall {s : List Char} (h : ∀ c ∈ s, isBlank c = false) : Tight s :=
  ⟨fun c hc => h c (List.mem_of_mem_head? hc), fun c hc => h c (List.mem_of_mem_getLast? hc)⟩

theorem allBlank_eq_false {s : List Char} {c : Char} (hc : c ∈ s) (hb : isBlank c = false) :
    allBlank s = false := by
  unfold allBlank
  rw [List.all_eq_false]
  exact ⟨c, hc, by simp [hb]⟩

theorem allBlank_of_forall {s : List Char} (hne : s ≠ [])
    (h : ∀ x ∈ s, isBlank x = false) : allBlank s = false := by
  obtain ⟨x, hx⟩ := List.exists_mem_of_ne_nil s hne
  exact allBlank_eq_false hx (h x hx)

/-! ## Properties that stay when blanks go -/

structure Shrinks (A : List Char → Prop) : Prop where
  left : ∀ c s, isBlank c = true → A (c :: s) → A s
  right : ∀ s c, isBlank c = true → A (s ++ [c]) → A s

section
variable {A : List Char → Prop} {s : List Char}

theorem Shrinks.trimLeft (hA : Shrinks A) (h : A s) : A (trimLeft s) := by
  induction s with
  | nil => exact h
  | cons c s ih =>
    by_cases hc : isBlank c = true
    · have ht : Text.trimLeft (c :: s) = Text.trimLeft s := List.dropWhile_cons_of_pos hc
      rw [ht]
      exact ih (hA.left c s hc h)
    · have ht : Text.trimLeft (c :: s) = c :: s := List.dropWhile_cons_of_neg hc
      rwa [ht]

theorem Shrinks.reverse (hA : Shrinks A) : Shrinks fun s => A s.reverse where
  left c s hc h := hA.right s.reverse c hc (by rwa [← List.reverse_cons])
  right s c hc h := hA.left c s.reverse hc (by rwa [← List.reverse_concat])

theorem Shrinks.trim (hA : Shrinks A) (h : A s) : A (trim s) := by
  have hl := hA.trimLeft h
  exact hA.reverse.trimLeft (by rwa [List.reverse_reverse])

end

end ScoreSynth.Text
