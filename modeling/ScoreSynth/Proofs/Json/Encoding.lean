import ScoreSynth.Proofs.Encoding.Laws
import ScoreSynth.Proofs.Json.Documents

/-!
# JSON as an encoding

JSON keeps whole numbers, texts, lists, records and variants, it is read back from both of its
spellings, and the doubles of lengths in beats come back from their fewest digits.
-/

namespace ScoreSynth.Json

open Value

/-! ## Records -/

section
variable {fields : List (String × Value)}

theorem single?_of_mem (h : (fields.map (·.1)).Nodup) {field : String × Value}
    (hf : field ∈ fields) :
    single? (fields.map fun f => (f.1.toList, f.2)) field.1 = some field.2 := by
  have hfilter : (fields.map fun f => (f.1.toList, f.2)).filter
      (fun m => m.1 = field.1.toList) = [(field.1.toList, field.2)] := by
    induction fields with
    | nil => cases hf
    | cons f fields ih =>
      obtain ⟨hne, hnodup⟩ := List.nodup_cons.mp h
      rcases List.mem_cons.mp hf with rfl | hmem
      · have hrest : (fields.map fun f => (f.1.toList, f.2)).filter
            (fun m => m.1 = field.1.toList) = [] := by
          rw [List.filter_eq_nil_iff]
          rintro m hm heq
          obtain ⟨f, hf, rfl⟩ := List.mem_map.mp hm
          simp only [decide_eq_true_eq, String.toList_inj] at heq
          exact hne (List.mem_map.mpr ⟨f, hf, heq⟩)
        rw [List.map_cons, List.filter_cons_of_pos (by simp), hrest]
      · have hother : f.1.toList ≠ field.1.toList := by
          rw [ne_eq, String.toList_inj]
          exact fun heq => hne (List.mem_map.mpr ⟨field, hmem, heq.symm⟩)
        rw [List.map_cons, List.filter_cons_of_neg (by simpa using hother)]
        exact ih hnodup hmem
  unfold single?
  rw [hfilter]

/-- The fields of a record are its values, if no name occurs twice. -/
theorem fields?_record (fields : List (String × Value)) (h : (fields.map (·.1)).Nodup) :
    (record fields).fields? (fields.map (·.1)) = some (fields.map (·.2)) := by
  have hnamed : named? (fields.map fun f => (escape f.1.toList, f.2)) =
      some (fields.map fun f => (f.1.toList, f.2)) := by
    unfold named?
    rw [List.mapM_map]
    exact mapM_eq_some_map fun f _ => by simp [unescape?_escape]
  unfold record Value.fields?
  simp only
  rw [hnamed, Option.bind_some, List.mapM_map]
  exact mapM_eq_some_map fun f hf => single?_of_mem h hf

theorem string?_ofString (s : String) : string? (ofString s) = some s := by
  have ht : (ofString s).text? = some s.toList := unescape?_escape s.toList
  unfold string?
  rw [ht, Option.map_some, String.ofList_toList]

theorem unit?_ofString (s : String) : unit? (ofString s) = some s := by
  have ht : (ofString s).variant? = some (s.toList, none) := by
    unfold ofString Value.ofText variant?
    simp only
    rw [unescape?_escape, Option.map_some]
  unfold unit?
  rw [ht]
  simp only
  rw [String.ofList_toList]

theorem holder?_record (name : String) (v : Value) : holder? (record [(name, v)]) = some (name, v) := by
  have hv : (record [(name, v)]).variant? = some (name.toList, some v) := by
    unfold record variant?
    simp [unescape?_escape]
  unfold holder?
  rw [hv]
  simp only
  rw [String.ofList_toList]

/-! ## Spellings -/

theorem sound_record (h : ∀ f ∈ fields, f.2.Sound) : (record fields).Sound := by
  unfold record
  rw [Value.Sound]
  induction fields with
  | nil => exact trivial
  | cons f fields ih =>
    exact ⟨isBody_escape _, h f List.mem_cons_self,
      ih fun g hg => h g (List.mem_cons_of_mem _ hg)⟩

end

theorem sound_array {vs : List Value} (h : ∀ v ∈ vs, v.Sound) : (Value.array vs).Sound := by
  rw [Value.Sound]
  induction vs with
  | nil => exact trivial
  | cons v vs ih =>
    exact ⟨h v List.mem_cons_self, ih fun w hw => h w (List.mem_cons_of_mem _ hw)⟩

theorem sound_ofString (s : String) : (ofString s).Sound := isBody_escape s.toList

theorem sound_ofFloat (x : Float) : (ofFloat x).Sound := by
  unfold ofFloat
  split
  · exact trivial
  · rename_i h
    rw [Bool.or_eq_true, not_or] at h
    unfold Number.Layout.write
    rw [if_neg h.1, if_neg h.2, String.toList_ofList]
    exact isLiteral_writeBinary rfl _ _ _

theorem sound_ofFloat32 (x : Float32) : (ofFloat32 x).Sound := by
  unfold ofFloat32
  split
  · exact trivial
  · rename_i h
    rw [Bool.or_eq_true, not_or] at h
    unfold Number.Layout.write32
    rw [if_neg h.1, if_neg h.2, String.toList_ofList]
    exact isLiteral_writeBinary rfl _ _ _

theorem sound_of_written {v : Value} (h : encoding.Written v) : v.Sound := by
  induction h with
  | double x => exact sound_ofFloat x
  | single x => exact sound_ofFloat32 x
  | int n => exact isLiteral_writeInt n
  | text s | unit s => exact sound_ofString s
  | list vs _ ih => exact sound_array ih
  | record fields _ ih => exact sound_record ih
  | variant name v _ ih => exact sound_record (List.forall_mem_singleton.mpr ih)

/-! ## The laws -/

theorem legible : encoding.Legible where
  int {least greatest n} hl hg hn := by
    have hmax : Number.max64 < 10 ^ 75 := by decide
    exact intWithin?_ofInt hl hg (by omega)
  text := string?_ofString
  list _ := rfl
  fields := fields?_record
  unit := unit?_ofString
  variant := holder?_record
  compact v h := by
    show read? (String.ofList (compact v)).toList = some v
    rw [String.toList_ofList]
    exact read?_compact (sound_of_written h)
  spread v h := by
    show read? (String.ofList (spread 0 v)).toList = some v
    rw [String.toList_ofList]
    exact read?_spread (sound_of_written h) 0

theorem exact : encoding.Exact where
  toLegible := legible
  double := float?_ofFloat_beats
  single := by decide +kernel

end ScoreSynth.Json
