import Mathlib.Data.List.DropRight
import ScoreSynth.Proofs.Json.Literals
import ScoreSynth.Proofs.Json.Texts

/-!
# Written documents

`Spells` says which texts spell a value: its own spelling of numbers and texts, with any blanks
around the brackets, commas and colons. The reader reads every such text as the value it spells, and
both writers write such a text.
-/

namespace ScoreSynth.Json

open Number

/-! ## Texts that spell a value -/

def Blank (g : List Char) : Prop := ∀ c ∈ g, isSpace c = true

mutual

inductive Spells : Value → List Char → Prop
  | null : Spells .null "null".toList
  | bool (b : Bool) : Spells (.bool b) (if b then "true" else "false").toList
  | number {l : List Char} (h : IsLiteral l) : Spells (.number l) l
  | text {b : List Char} (h : IsBody b) : Spells (.text b) (quoted b)
  | emptyArray {g : List Char} (hg : Blank g) : Spells (.array []) ('[' :: (g ++ [']']))
  | array {vs : List Value} {u : List Char} (h : SpellsElements vs u) :
    Spells (.array vs) ('[' :: u)
  | emptyObject {g : List Char} (hg : Blank g) : Spells (.object []) ('{' :: (g ++ ['}']))
  | object {ms : List (List Char × Value)} {u : List Char} (h : SpellsMembers ms u) :
    Spells (.object ms) ('{' :: u)

inductive SpellsElements : List Value → List Char → Prop
  | last {v : Value} {g s g' : List Char} (hg : Blank g) (h : Spells v s) (hg' : Blank g') :
    SpellsElements [v] (g ++ (s ++ (g' ++ [']'])))
  | more {v : Value} {vs : List Value} {g s g' u : List Char} (hg : Blank g) (h : Spells v s)
      (hg' : Blank g') (hu : SpellsElements vs u) :
    SpellsElements (v :: vs) (g ++ (s ++ (g' ++ ',' :: u)))

inductive SpellsMembers : List (List Char × Value) → List Char → Prop
  | last {k : List Char} {v : Value} {g g₁ g₂ s g' : List Char} (hg : Blank g) (hk : IsBody k)
      (h₁ : Blank g₁) (h₂ : Blank g₂) (h : Spells v s) (hg' : Blank g') :
    SpellsMembers [(k, v)] (g ++ (quoted k ++ (g₁ ++ ':' :: (g₂ ++ (s ++ (g' ++ ['}']))))))
  | more {k : List Char} {v : Value} {ms : List (List Char × Value)} {g g₁ g₂ s g' u : List Char}
      (hg : Blank g) (hk : IsBody k) (h₁ : Blank g₁) (h₂ : Blank g₂) (h : Spells v s)
      (hg' : Blank g') (hu : SpellsMembers ms u) :
    SpellsMembers ((k, v) :: ms)
      (g ++ (quoted k ++ (g₁ ++ ':' :: (g₂ ++ (s ++ (g' ++ ',' :: u))))))

end

/-! ## Blanks -/

section
variable {g r : List Char}

theorem skipSpace_append (hg : Blank g) (r : List Char) : skipSpace (g ++ r) = skipSpace r :=
  List.dropWhile_append_of_pos hg

theorem skipSpace_cons {c : Char} (hc : isSpace c = false) (r : List Char) :
    skipSpace (c :: r) = c :: r :=
  List.dropWhile_cons_of_neg (by simp [hc])

theorem skipSpace_skipSpace (s : List Char) : skipSpace (skipSpace s) = skipSpace s :=
  List.dropWhile_idempotent _ _

theorem value?_skipSpace (n : Nat) (s : List Char) : value? n (skipSpace s) = value? n s := by
  cases n with
  | zero => rfl
  | succ n => rw [value?, value?, skipSpace_skipSpace]

theorem elements?_skipSpace (n : Nat) (s : List Char) :
    elements? n (skipSpace s) = elements? n s := by
  cases n with
  | zero => rfl
  | succ n => rw [elements?, elements?, value?_skipSpace]

theorem members?_skipSpace (n : Nat) (s : List Char) :
    members? n (skipSpace s) = members? n s := by
  cases n with
  | zero => rfl
  | succ n => rw [members?, members?, skipSpace_skipSpace]

theorem value?_append (hg : Blank g) (n : Nat) (s : List Char) :
    value? n (g ++ s) = value? n s := by
  rw [← value?_skipSpace, skipSpace_append hg, value?_skipSpace]

end

/-! ## Reading -/

theorem isSpace_of_isDigit {c : Char} (h : c.isDigit = true) : isSpace c = false := by
  unfold isSpace
  simp [ne_of_isDigit h (show ' '.isDigit = false by decide),
    ne_of_isDigit h (show '\n'.isDigit = false by decide),
    ne_of_isDigit h (show '\t'.isDigit = false by decide),
    ne_of_isDigit h (show '\r'.isDigit = false by decide)]

/-- A value starts with neither a blank nor a closing bracket. -/
theorem head_spells {v : Value} {s : List Char} (h : Spells v s) :
    ∃ c t, s = c :: t ∧ isSpace c = false ∧ c ≠ ']' := by
  cases h with
  | null => exact ⟨'n', _, rfl, by decide, by decide⟩
  | bool b => cases b <;> exact ⟨_, _, rfl, by decide, by decide⟩
  | number h =>
    obtain ⟨c, t, rfl, rfl | hd⟩ := h.head
    · exact ⟨'-', t, rfl, by decide, by decide⟩
    · exact ⟨c, t, rfl, isSpace_of_isDigit hd, ne_of_isDigit hd (by decide)⟩
  | text | emptyArray | array | emptyObject | object => exact ⟨_, _, rfl, by decide, by decide⟩

/-- With `n` steps the reader reads what is short enough for them. -/
structure Reads (n : Nat) : Prop where
  value : ∀ {v s r}, Spells v s → 2 * s.length < n → Ends r → value? n (s ++ r) = some (v, r)
  elements : ∀ {vs u r}, SpellsElements vs u → 2 * u.length + 1 < n →
    elements? n (u ++ r) = some (vs, r)
  members : ∀ {ms u r}, SpellsMembers ms u → 2 * u.length + 1 < n →
    members? n (u ++ r) = some (ms, r)

section
variable {n : Nat} {r : List Char} (ih : Reads n)

theorem ends_of_blank {g : List Char} (hg : Blank g) (hr : Ends r) : Ends (g ++ r) := by
  cases g with
  | nil => exact hr
  | cons c g =>
    intro d hd
    obtain rfl := Option.some.inj hd
    have hc := hg c List.mem_cons_self
    unfold isSpace at hc
    simp only [Bool.or_eq_true, beq_iff_eq] at hc
    rcases hc with ((rfl | rfl) | rfl) | rfl <;> decide

theorem ends_cons {c : Char} (hc : c = ',' ∨ c = ']' ∨ c = '}') (r : List Char) :
    Ends (c :: r) := by
  intro d hd
  obtain rfl := Option.some.inj hd
  rcases hc with rfl | rfl | rfl <;> decide

theorem value?_literal {l : List Char} (h : IsLiteral l) (hr : Ends r) :
    value? (n + 1) (l ++ r) = some (.number l, r) := by
  have hl := h.literal? r hr
  obtain ⟨c, t, rfl, hc⟩ := h.head
  have hne : ∀ d : Char, d.isDigit = false → d ≠ '-' → c ≠ d := by
    intro d hd hminus
    rcases hc with rfl | hc
    · exact hminus.symm
    · exact ne_of_isDigit hc hd
  have hspace : isSpace c = false := by
    rcases hc with rfl | hc
    · decide
    · exact isSpace_of_isDigit hc
  rw [List.cons_append] at hl ⊢
  rw [value?, skipSpace_cons hspace]
  split
  · rename_i heq
    exact absurd (List.cons.inj heq).1 (hne '{' (by decide) (by decide))
  · rename_i heq
    exact absurd (List.cons.inj heq).1 (hne '[' (by decide) (by decide))
  · rename_i heq
    exact absurd (List.cons.inj heq).1 (hne '"' (by decide) (by decide))
  · rename_i heq
    exact absurd (List.cons.inj heq).1 (hne 'n' (by decide) (by decide))
  · rename_i heq
    exact absurd (List.cons.inj heq).1 (hne 't' (by decide) (by decide))
  · rename_i heq
    exact absurd (List.cons.inj heq).1 (hne 'f' (by decide) (by decide))
  · rw [hl]
    rfl

theorem members?_member {k g g₁ g₂ s g' : List Char} {v : Value} {c : Char} (hg : Blank g)
    (hk : IsBody k) (h₁ : Blank g₁) (h₂ : Blank g₂) (hg' : Blank g') (hc : isSpace c = false)
    (hv : value? n (s ++ (g' ++ c :: r)) = some (v, g' ++ c :: r)) :
    members? (n + 1) (g ++ (quoted k ++ (g₁ ++ ':' :: (g₂ ++ (s ++ (g' ++ c :: r)))))) =
      if c = ',' then (members? n r).map fun x => ((k, v) :: x.1, x.2)
      else if c = '}' then some ([(k, v)], r) else none := by
  simp only [quoted, List.append_assoc, List.cons_append, List.nil_append]
  rw [members?, skipSpace_append hg, skipSpace_cons (by decide)]
  simp only
  rw [hk]
  simp only [Option.bind_some]
  rw [skipSpace_append h₁, skipSpace_cons (by decide)]
  simp only
  rw [value?_append h₂, hv]
  simp only [Option.bind_some]
  rw [skipSpace_append hg', skipSpace_cons hc]
  split
  · rename_i heq
    obtain ⟨rfl, rfl⟩ := List.cons.inj heq
    exact (if_pos rfl).symm
  · rename_i heq
    obtain ⟨rfl, rfl⟩ := List.cons.inj heq
    rw [if_neg (by decide), if_pos rfl]
  · rename_i hcomma hbrace
    rw [if_neg fun h => hcomma r (congrArg (· :: r) h),
      if_neg fun h => hbrace r (congrArg (· :: r) h)]

include ih

theorem value?_spells {v : Value} {s : List Char} (h : Spells v s) (hn : 2 * s.length < n + 1)
    (hr : Ends r) : value? (n + 1) (s ++ r) = some (v, r) := by
  cases h with
  | null => rfl
  | bool b => cases b <;> rfl
  | number h => exact value?_literal h hr
  | text h =>
    rw [quoted, List.cons_append, List.append_assoc, List.singleton_append, value?,
      skipSpace_cons (by decide)]
    simp only
    rw [h r]
    rfl
  | emptyArray hg =>
    rw [List.cons_append, List.append_assoc, List.singleton_append, value?,
      skipSpace_cons (by decide)]
    simp only
    rw [skipSpace_append hg, skipSpace_cons (by decide)]
    rfl
  | array h =>
    rename_i vs u
    have hu := ih.elements (r := r) h (by rw [List.length_cons] at hn; omega)
    rw [← elements?_skipSpace] at hu
    rw [List.cons_append, value?, skipSpace_cons (by decide)]
    simp only
    split
    · rename_i heq
      -- the first element does not start with a closing bracket
      cases h with
      | last hg hv _ | more hg hv _ _ =>
        obtain ⟨c, t, rfl, hspace, hc⟩ := head_spells hv
        rw [List.append_assoc, skipSpace_append hg, List.cons_append, List.cons_append,
          skipSpace_cons hspace] at heq
        exact absurd (List.cons.inj heq).1 hc
    · rw [hu]
      rfl
  | emptyObject hg =>
    rw [List.cons_append, List.append_assoc, List.singleton_append, value?,
      skipSpace_cons (by decide)]
    simp only
    rw [skipSpace_append hg, skipSpace_cons (by decide)]
    rfl
  | object h =>
    rename_i ms u
    have hu := ih.members (r := r) h (by rw [List.length_cons] at hn; omega)
    rw [← members?_skipSpace] at hu
    rw [List.cons_append, value?, skipSpace_cons (by decide)]
    simp only
    split
    · rename_i heq
      -- a member starts with a quote
      cases h with
      | last hg | more hg =>
        rw [List.append_assoc, skipSpace_append hg, quoted, List.cons_append, List.cons_append,
          skipSpace_cons (by decide)] at heq
        exact absurd (List.cons.inj heq).1 (by decide)
    · rw [hu]
      rfl

theorem elements?_spells {vs : List Value} {u : List Char} (h : SpellsElements vs u)
    (hn : 2 * u.length + 1 < n + 1) : elements? (n + 1) (u ++ r) = some (vs, r) := by
  cases h with
  | last hg h hg' =>
    rename_i v g s g'
    have hend : Ends (g' ++ ']' :: r) := ends_of_blank hg' (ends_cons (.inr (.inl rfl)) r)
    have hv := ih.value h (by simp only [List.length_append] at hn; omega) hend
    simp only [List.append_assoc, List.cons_append, List.nil_append]
    rw [elements?, value?_append hg, hv]
    simp only [Option.bind_some]
    rw [skipSpace_append hg', skipSpace_cons (by decide)]
    rfl
  | more hg h hg' hu =>
    rename_i v vs g s g' u
    have hend : Ends (g' ++ ',' :: (u ++ r)) := ends_of_blank hg' (ends_cons (.inl rfl) _)
    simp only [List.length_append, List.length_cons] at hn
    have hv := ih.value h (by omega) hend
    have hvs := ih.elements (r := r) hu (by omega)
    simp only [List.append_assoc, List.cons_append]
    rw [elements?, value?_append hg, hv]
    simp only [Option.bind_some]
    rw [skipSpace_append hg', skipSpace_cons (by decide)]
    simp only
    rw [hvs]
    rfl

theorem members?_spells {ms : List (List Char × Value)} {u : List Char} (h : SpellsMembers ms u)
    (hn : 2 * u.length + 1 < n + 1) : members? (n + 1) (u ++ r) = some (ms, r) := by
  cases h with
  | last hg hk h₁ h₂ h hg' =>
    rename_i k v g g₁ g₂ s g'
    have hend : Ends (g' ++ '}' :: r) := ends_of_blank hg' (ends_cons (.inr (.inr rfl)) r)
    simp only [List.length_append, List.length_cons] at hn
    have hv := ih.value h (by omega) hend
    simp only [List.append_assoc, List.cons_append, List.nil_append]
    rw [members?_member hg hk h₁ h₂ hg' (by decide) hv, if_neg (by decide), if_pos rfl]
  | more hg hk h₁ h₂ h hg' hu =>
    rename_i k v ms g g₁ g₂ s g' u
    have hend : Ends (g' ++ ',' :: (u ++ r)) := ends_of_blank hg' (ends_cons (.inl rfl) _)
    simp only [List.length_append, List.length_cons] at hn
    have hv := ih.value h (by omega) hend
    have hms := ih.members (r := r) hu (by omega)
    simp only [List.append_assoc, List.cons_append]
    rw [members?_member hg hk h₁ h₂ hg' (by decide) hv, if_pos rfl, hms]
    rfl

end

theorem reads (n : Nat) : Reads n := by
  induction n with
  | zero => exact ⟨fun _ h => by omega, fun _ h => by omega, fun _ h => by omega⟩
  | succ n ih => exact ⟨value?_spells ih, elements?_spells ih, members?_spells ih⟩

/-- A text that spells a value is read as that value. -/
theorem read?_spells {v : Value} {s : List Char} (h : Spells v s) : read? s = some v := by
  have hv := (reads (2 * s.length + 2)).value h (r := []) (by omega) nofun
  rw [List.append_nil] at hv
  unfold read?
  rw [hv]
  rfl

/-! ## Writing -/

mutual

/-- All numbers and texts in a value are spelled as the reader takes them. -/
def Value.Sound : Value → Prop
  | .null => True
  | .bool _ => True
  | .number l => IsLiteral l
  | .text b => IsBody b
  | .array vs => Value.SoundElements vs
  | .object ms => Value.SoundMembers ms

def Value.SoundElements : List Value → Prop
  | [] => True
  | v :: vs => v.Sound ∧ Value.SoundElements vs

def Value.SoundMembers : List (List Char × Value) → Prop
  | [] => True
  | (k, v) :: ms => IsBody k ∧ v.Sound ∧ Value.SoundMembers ms

end

theorem blank_nil : Blank [] := nofun

theorem blank_lineStart (depth : Nat) : Blank (lineStart depth) := by
  intro c hc
  rcases List.mem_cons.mp hc with rfl | hc
  · decide
  · rw [(List.mem_replicate.mp hc).2]
    decide

mutual

theorem spells_compact : ∀ v : Value, v.Sound → Spells v (compact v)
  | .null, _ => .null
  | .bool b, _ => .bool b
  | .number _, h => .number h
  | .text _, h => .text h
  | .array [], _ => .emptyArray blank_nil
  | .array (v :: vs), h => .array (spellsElements_compact (v :: vs) (List.cons_ne_nil v vs) h)
  | .object [], _ => .emptyObject blank_nil
  | .object (m :: ms), h => .object (spellsMembers_compact (m :: ms) (List.cons_ne_nil m ms) h)

theorem spellsElements_compact : ∀ vs : List Value, vs ≠ [] → Value.SoundElements vs →
    SpellsElements vs (compactElements vs ++ [']'])
  | [], hne, _ => absurd rfl hne
  | [v], _, h => .last blank_nil (spells_compact v h.1) blank_nil
  | v :: w :: vs, _, h => by
    have hw := SpellsElements.more blank_nil (spells_compact v h.1) blank_nil
      (spellsElements_compact (w :: vs) (List.cons_ne_nil w vs) h.2)
    simpa [compactElements] using hw

theorem spellsMembers_compact : ∀ ms : List (List Char × Value), ms ≠ [] →
    Value.SoundMembers ms → SpellsMembers ms (compactMembers ms ++ ['}'])
  | [], hne, _ => absurd rfl hne
  | [(k, v)], _, h => by
    have hv := SpellsMembers.last blank_nil h.1 blank_nil blank_nil (spells_compact v h.2.1)
      blank_nil
    simpa [compactMembers] using hv
  | (k, v) :: m :: ms, _, h => by
    have hw := SpellsMembers.more blank_nil h.1 blank_nil blank_nil (spells_compact v h.2.1)
      blank_nil (spellsMembers_compact (m :: ms) (List.cons_ne_nil m ms) h.2.2)
    simpa [compactMembers] using hw

end

theorem blank_space : Blank [' '] := List.forall_mem_singleton.mpr rfl

mutual

theorem spells_spread : ∀ (v : Value) (depth : Nat), v.Sound → Spells v (spread depth v)
  | .null, _, _ => .null
  | .bool b, _, _ => .bool b
  | .number _, _, h => .number h
  | .text _, _, h => .text h
  | .array [], _, _ => .emptyArray blank_nil
  | .array (v :: vs), depth, h => by
    have hv := Spells.array (spellsElements_spread (v :: vs) (depth + 1) (List.cons_ne_nil v vs) h
      (blank_lineStart depth))
    simpa [spread] using hv
  | .object [], _, _ => .emptyObject blank_nil
  | .object (m :: ms), depth, h => by
    have hv := Spells.object (spellsMembers_spread (m :: ms) (depth + 1) (List.cons_ne_nil m ms) h
      (blank_lineStart depth))
    simpa [spread] using hv

theorem spellsElements_spread : ∀ (vs : List Value) (depth : Nat) {g : List Char}, vs ≠ [] →
    Value.SoundElements vs → Blank g → SpellsElements vs (spreadElements depth vs ++ (g ++ [']']))
  | [], _, _, hne, _, _ => absurd rfl hne
  | [v], depth, _, _, h, hg => by
    have hv := SpellsElements.last (blank_lineStart depth) (spells_spread v depth h.1) hg
    simpa [spreadElements] using hv
  | v :: w :: vs, depth, _, _, h, hg => by
    have hw := SpellsElements.more (blank_lineStart depth) (spells_spread v depth h.1) blank_nil
      (spellsElements_spread (w :: vs) depth (List.cons_ne_nil w vs) h.2 hg)
    simpa [spreadElements] using hw

theorem spellsMembers_spread : ∀ (ms : List (List Char × Value)) (depth : Nat) {g : List Char},
    ms ≠ [] → Value.SoundMembers ms → Blank g →
      SpellsMembers ms (spreadMembers depth ms ++ (g ++ ['}']))
  | [], _, _, hne, _, _ => absurd rfl hne
  | [(k, v)], depth, _, _, h, hg => by
    have hv := SpellsMembers.last (blank_lineStart depth) h.1 blank_nil blank_space
      (spells_spread v depth h.2.1) hg
    simpa [spreadMembers] using hv
  | (k, v) :: m :: ms, depth, _, _, h, hg => by
    have hw := SpellsMembers.more (blank_lineStart depth) h.1 blank_nil blank_space
      (spells_spread v depth h.2.1) blank_nil
      (spellsMembers_spread (m :: ms) depth (List.cons_ne_nil m ms) h.2.2 hg)
    simpa [spreadMembers] using hw

end

section
variable {v : Value} (h : v.Sound)
include h

theorem read?_compact : read? (compact v) = some v := read?_spells (spells_compact v h)

theorem read?_spread (depth : Nat) : read? (spread depth v) = some v :=
  read?_spells (spells_spread v depth h)

end

end ScoreSynth.Json
