import ScoreSynth.Notation.Reader
import ScoreSynth.Proofs.Text.Pieces

/-!
# Taking the comments out

A text is freed from its comments line by line. `stripped` does the same in one pass over the
characters, so that what a comment or a line end does to the text around it can be told by
induction.
-/

namespace ScoreSynth.Notation

/-- One pass over a text; the flag says that a comment is open. -/
def stripped (comment : Bool) : List Char → List Char
  | [] => []
  | c :: s =>
    if c = '\n' then if s = [] then [] else '\n' :: stripped false s
    else if comment then stripped true s
    else if c = '/' ∧ s.head? = some '/' then stripped true s
    else if c = '\r' ∧ s.head? = some '\n' then stripped false s
    else c :: stripped false s

/-! ## Line by line -/

def joinLines (ls : List (List Char)) : List Char :=
  ['\n'].intercalate ((Text.linesOf ls).map Text.beforeSlashes)

theorem withoutComments_eq_joinLines (s : List Char) :
    withoutComments s = joinLines (s.splitOn '\n') := rfl

theorem beforeSlashes_cons {c : Char} {s : List Char} (h : ¬(c = '/' ∧ s.head? = some '/')) :
    Text.beforeSlashes (c :: s) = c :: Text.beforeSlashes s := by
  rw [Text.beforeSlashes]
  rintro t rfl rfl
  exact h ⟨rfl, rfl⟩

theorem dropReturn_cons {c : Char} {s : List Char} (h : c = '\r' → s ≠ []) :
    Text.dropReturn (c :: s) = c :: Text.dropReturn s := by
  cases s with
  | nil =>
    have hc : c ≠ '\r' := fun hc => h hc rfl
    simp [Text.dropReturn, hc]
  | cons d s =>
    unfold Text.dropReturn
    rw [List.getLast?_cons_cons]
    split <;> rfl

theorem head_dropReturn {s : List Char} {d : Char} (h : (Text.dropReturn s).head? = some d) :
    s.head? = some d := by
  unfold Text.dropReturn at h
  split at h
  · cases s with
    | nil => cases h
    | cons c s => cases s <;> simp_all
  · exact h

theorem linesOf_cons {l : List Char} {ls : List (List Char)} (h : ls ≠ []) :
    Text.linesOf (l :: ls) = Text.dropReturn l :: Text.linesOf ls := by
  cases ls with
  | nil => exact absurd rfl h
  | cons m ls => rfl

theorem joinLines_cons_cons {c : Char} {l : List Char} {ls : List (List Char)}
    (hslash : ¬(c = '/' ∧ l.head? = some '/')) (hreturn : c = '\r' → l = [] → ls = []) :
    joinLines ((c :: l) :: ls) = c :: joinLines (l :: ls) := by
  by_cases hls : ls = []
  · subst hls
    by_cases hl : l = []
    · subst hl
      simp [joinLines, Text.linesOf, Text.beforeSlashes]
    · simp [joinLines, Text.linesOf, hl, beforeSlashes_cons hslash]
  · have hd : Text.dropReturn (c :: l) = c :: Text.dropReturn l :=
      dropReturn_cons fun hc hl => hls (hreturn hc hl)
    have hb : Text.beforeSlashes (c :: Text.dropReturn l) =
        c :: Text.beforeSlashes (Text.dropReturn l) :=
      beforeSlashes_cons fun h => hslash ⟨h.1, head_dropReturn h.2⟩
    unfold joinLines
    rw [linesOf_cons hls, linesOf_cons hls, hd, List.map_cons, List.map_cons, hb,
      List.intercalate_cons_cons_left]

/-- A line of which nothing stays before the comment leaves its line end. -/
theorem joinLines_bare {l s : List Char} (hl : Text.beforeSlashes (Text.dropReturn l) = [])
    (hs : s ≠ []) : joinLines (l :: s.splitOn '\n') = '\n' :: withoutComments s := by
  have hne := List.splitOn_ne_nil '\n' s
  have hlines : Text.linesOf (s.splitOn '\n') ≠ [] := by
    intro h
    have hj : ['\n'].intercalate (s.splitOn '\n') = s := List.intercalate_splitOn '\n'
    cases hp : s.splitOn '\n' with
    | nil => exact hne hp
    | cons m ms =>
      rw [hp] at h hj
      cases ms with
      | nil =>
        by_cases hm : m = []
        · subst hm
          exact hs hj.symm
        · simp [Text.linesOf, hm] at h
      | cons n ms => cases h
  unfold withoutComments joinLines Text.lines
  rw [linesOf_cons hne, List.map_cons, hl, List.intercalate_cons_of_ne_nil (by simpa using hlines)]
  rfl

/-! ## Character by character -/

theorem dropReturn_slashes (l : List Char) :
    Text.beforeSlashes (Text.dropReturn ('/' :: '/' :: l)) = [] := by
  have hs : '/' ≠ '\r' := by decide
  rw [dropReturn_cons fun h => absurd h hs, dropReturn_cons fun h => absurd h hs]
  rfl

theorem joinLines_slashes (l m : List Char) (ls : List (List Char)) :
    joinLines (('/' :: '/' :: l) :: ls) = joinLines (('/' :: '/' :: m) :: ls) := by
  cases ls with
  | nil => rfl
  | cons n ls => simp only [joinLines, Text.linesOf, List.map_cons, dropReturn_slashes]

theorem splitOn_cons {c sep : Char} {s : List Char} (h : c ≠ sep) :
    ∃ l ls, s.splitOn sep = l :: ls ∧ (c :: s).splitOn sep = (c :: l) :: ls := by
  rw [List.splitOn_cons_eq_if_modifyHead, if_neg (by simpa using h)]
  cases hp : s.splitOn sep with
  | nil => exact absurd hp (List.splitOn_ne_nil _ _)
  | cons l ls => exact ⟨l, ls, rfl, rfl⟩

theorem splitOn_sep (sep : Char) (s : List Char) :
    (sep :: s).splitOn sep = [] :: s.splitOn sep := by
  rw [List.splitOn_cons_eq_if_modifyHead, if_pos (by simp)]

theorem withoutComments_open {c : Char} (hc : c ≠ '\n') (s : List Char) :
    withoutComments ('/' :: '/' :: c :: s) = withoutComments ('/' :: '/' :: s) := by
  obtain ⟨l, ls, hs, hcs⟩ := splitOn_cons (s := s) hc
  simp only [withoutComments_eq_joinLines, List.splitOn_cons_eq_if_modifyHead ('/'), hcs, hs]
  exact joinLines_slashes _ _ ls

theorem withoutComments_newline {s : List Char} (hs : s ≠ []) :
    withoutComments ('\n' :: s) = '\n' :: withoutComments s := by
  rw [withoutComments_eq_joinLines, splitOn_sep, joinLines_bare rfl hs]

theorem withoutComments_open_newline {s : List Char} (hs : s ≠ []) :
    withoutComments ('/' :: '/' :: '\n' :: s) = '\n' :: withoutComments s := by
  have hp : ('/' :: '/' :: '\n' :: s).splitOn '\n' = ['/', '/'] :: s.splitOn '\n' := by
    simp [List.splitOn_cons_eq_if_modifyHead]
  rw [withoutComments_eq_joinLines, hp, joinLines_bare rfl hs]

/-- Of a carriage return and a line feed the line feed stays. -/
theorem withoutComments_return_newline (s : List Char) :
    withoutComments ('\r' :: '\n' :: s) = withoutComments ('\n' :: s) := by
  by_cases hs : s = []
  · subst hs; rfl
  · have hp : ('\r' :: '\n' :: s).splitOn '\n' = ['\r'] :: s.splitOn '\n' := by
      simp [List.splitOn_cons_eq_if_modifyHead]
    rw [withoutComments_newline hs, withoutComments_eq_joinLines, hp, joinLines_bare rfl hs]

theorem withoutComments_cons {c : Char} {s : List Char} (hc : c ≠ '\n')
    (hslash : ¬(c = '/' ∧ s.head? = some '/')) (hreturn : ¬(c = '\r' ∧ s.head? = some '\n')) :
    withoutComments (c :: s) = c :: withoutComments s := by
  obtain ⟨l, ls, hs, hcs⟩ := splitOn_cons (s := s) hc
  have hj : ['\n'].intercalate (l :: ls) = s := hs ▸ List.intercalate_splitOn '\n'
  rw [withoutComments_eq_joinLines, withoutComments_eq_joinLines, hcs, hs]
  cases l with
  | nil =>
    refine joinLines_cons_cons (by simp) fun h _ => ?_
    cases ls with
    | nil => rfl
    | cons m ls => exact absurd ⟨h, by rw [← hj]; rfl⟩ hreturn
  | cons d l =>
    have hd : s.head? = some d := by cases ls <;> rw [← hj] <;> simp
    rw [hd] at hslash
    exact joinLines_cons_cons hslash nofun

theorem withoutComments_eq_stripped (s : List Char) :
    withoutComments s = stripped false s ∧
      withoutComments ('/' :: '/' :: s) = stripped true s := by
  induction s with
  | nil => exact ⟨rfl, rfl⟩
  | cons c s ih =>
    obtain ⟨hclosed, hopen⟩ := ih
    by_cases hn : c = '\n'
    · subst hn
      by_cases hs : s = []
      · subst hs; exact ⟨rfl, rfl⟩
      · simp [stripped, hs, withoutComments_newline, withoutComments_open_newline, hclosed]
    · refine ⟨?_, by simp [stripped, hn, withoutComments_open hn, hopen]⟩
      by_cases hslash : c = '/' ∧ s.head? = some '/'
      · obtain ⟨rfl, hd⟩ := hslash
        obtain ⟨t, rfl⟩ := List.head?_eq_some_iff.mp hd
        rw [withoutComments_open (by decide)] at hopen
        simp [stripped, hopen]
      · by_cases hreturn : c = '\r' ∧ s.head? = some '\n'
        · obtain ⟨rfl, hd⟩ := hreturn
          obtain ⟨t, rfl⟩ := List.head?_eq_some_iff.mp hd
          rw [withoutComments_return_newline, hclosed]
          simp [stripped]
        · rw [withoutComments_cons hn hslash hreturn, hclosed]
          simp [stripped, hn, hslash, hreturn]

/-! ## A segment behind a line end -/

/--
A line end and a semicolon end whatever comment is open before them: what follows is stripped on its
own, and what stands before is stripped as without it, up to blanks at its end.
-/
theorem stripped_append_segment (comment : Bool) (a b : List Char) : ∃ p x y,
    Text.allBlank x = true ∧ Text.allBlank y = true ∧ stripped comment a = p ++ x ∧
      stripped comment (a ++ '\n' :: ';' :: b) = p ++ y ++ ';' :: stripped false b := by
  induction a generalizing comment with
  | nil => exact ⟨[], [], ['\n'], rfl, rfl, rfl, by simp [stripped]⟩
  | cons c a ih =>
    by_cases hn : c = '\n'
    · subst hn
      by_cases ha : a = []
      · subst ha
        exact ⟨[], [], ['\n', '\n'], rfl, rfl, by simp [stripped], by simp [stripped]⟩
      · obtain ⟨p, x, y, hx, hy, h, hj⟩ := ih false
        exact ⟨'\n' :: p, x, y, hx, hy, by simp [stripped, ha, h], by simp [stripped, hj]⟩
    · by_cases hcomment : comment = true
      · obtain ⟨p, x, y, hx, hy, h, hj⟩ := ih true
        refine ⟨p, x, y, hx, hy, ?_, ?_⟩
        · simp [stripped, hn, hcomment, h]
        · simpa [stripped, hn, hcomment] using hj
      · by_cases hlast : a = []
        · subst hlast
          by_cases hr : c = '\r'
          · subst hr
            exact ⟨[], ['\r'], ['\n'], rfl, rfl, by simp [stripped, hcomment],
              by simp [stripped, hcomment]⟩
          · exact ⟨[c], [], ['\n'], rfl, rfl, by simp [stripped, hn, hcomment],
              by simp [stripped, hn, hcomment, hr]⟩
        · have hd : (a ++ '\n' :: ';' :: b).head? = a.head? := by
            cases a with
            | nil => exact absurd rfl hlast
            | cons d a => rfl
          -- the rest of `a` decides, with or without what follows it
          have hstep : ∀ t, t.head? = a.head? → stripped comment (c :: t) =
              if c = '/' ∧ a.head? = some '/' then stripped true t
              else if c = '\r' ∧ a.head? = some '\n' then stripped false t
              else c :: stripped false t := by
            intro t ht
            simp [stripped, hn, hcomment, ht]
          rw [List.cons_append, hstep a rfl, hstep _ hd]
          split
          · exact ih true
          · split
            · exact ih false
            · obtain ⟨p, x, y, hx, hy, h, hj⟩ := ih false
              exact ⟨c :: p, x, y, hx, hy, by rw [h]; rfl, by rw [hj]; rfl⟩

end ScoreSynth.Notation
