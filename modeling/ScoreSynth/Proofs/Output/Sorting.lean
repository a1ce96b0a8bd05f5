import ScoreSynth.Output.Batch

/-!
# Queues in order

A stable sort never moves two entries of one start past each other, so its result is settled by the
entries of each start and their order. A queue that is sorted again each time tones come therefore
ends like one that is sorted once, and a queue sorted the other way round is the same queue reversed.
-/

namespace ScoreSynth.Output

theorem filter_mergeSort {α : Type} {le : α → α → Bool} {p : α → Bool}
    (trans : ∀ a b c, le a b → le b c → le a c) (total : ∀ a b, le a b || le b a)
    (hp : ∀ a b, p a → p b → le a b) (l : List α) : (l.mergeSort le).filter p = l.filter p := by
  have hle : (l.filter p).Pairwise fun a b => le a b := by
    apply List.pairwise_of_forall_mem_list
    intro a ha b hb
    exact hp a b (List.mem_filter.mp ha).2 (List.mem_filter.mp hb).2
  have hsub : (l.filter p).Sublist (l.mergeSort le) :=
    List.sublist_mergeSort trans total hle List.filter_sublist
  have hfilter : (l.filter p).Sublist ((l.mergeSort le).filter p) := by simpa using hsub.filter p
  exact (hfilter.eq_of_length ((List.mergeSort_perm l le).filter p).length_eq.symm).symm

def InOrder (es : List Entry) : Prop := es.Pairwise fun a b => a.start ≤ b.start

def startsAt (frame : Nat) (e : Entry) : Bool := e.start == frame

theorem startsAt_iff {frame : Nat} {e : Entry} : startsAt frame e = true ↔ e.start = frame := by
  simp [startsAt]

namespace InOrder

variable {a : Entry} {as bs : List Entry}

theorem head_le (h : InOrder (a :: as)) {b : Entry} (hb : b ∈ a :: as) : a.start ≤ b.start := by
  rcases List.mem_cons.mp hb with rfl | hb
  · exact Nat.le_refl _
  · exact List.rel_of_pairwise_cons h hb

theorem subset_of_classes (h : ∀ k, as.filter (startsAt k) = bs.filter (startsAt k)) : as ⊆ bs := by
  intro a ha
  have hmem : a ∈ bs.filter (startsAt a.start) := by
    rw [← h]; exact List.mem_filter.mpr ⟨ha, startsAt_iff.mpr rfl⟩
  exact (List.mem_filter.mp hmem).1

/-- Entries in order are settled by those of each start. -/
theorem eq_of_classes (ha : InOrder as) (hb : InOrder bs)
    (h : ∀ k, as.filter (startsAt k) = bs.filter (startsAt k)) : as = bs := by
  induction as generalizing bs with
  | nil => exact (List.subset_nil.mp (subset_of_classes fun k => (h k).symm)).symm
  | cons a as ih =>
    cases bs with
    | nil => exact List.subset_nil.mp (subset_of_classes h)
    | cons b bs =>
      have hab : a.start = b.start :=
        Nat.le_antisymm (ha.head_le (subset_of_classes (fun k => (h k).symm) List.mem_cons_self))
          (hb.head_le (subset_of_classes h List.mem_cons_self))
      -- the heads are the first entries of one and the same class
      have heads : a :: as.filter (startsAt a.start) = b :: bs.filter (startsAt a.start) := by
        have := h a.start
        rwa [List.filter_cons_of_pos (startsAt_iff.mpr rfl),
          List.filter_cons_of_pos (startsAt_iff.mpr hab.symm)] at this
      obtain rfl := (List.cons.inj heads).1
      congr 1
      apply ih (List.Pairwise.of_cons ha) (List.Pairwise.of_cons hb)
      intro k
      have := h k
      simp only [List.filter_cons] at this
      split at this
      · exact (List.cons.inj this).2
      · exact this

end InOrder

/-! ## Sorting by start -/

theorem notLater_trans (a b c : Entry) (hab : a.notLater b) (hbc : b.notLater c) : a.notLater c := by
  simp only [Entry.notLater, decide_eq_true_eq] at *; omega

theorem notLater_total (a b : Entry) : a.notLater b || b.notLater a := by
  simp only [Entry.notLater, Bool.or_eq_true, decide_eq_true_eq]; omega

theorem inOrder_sortByStart (es : List Entry) : InOrder (sortByStart es) :=
  (List.pairwise_mergeSort notLater_trans notLater_total es).imp fun h => by
    simpa [Entry.notLater] using h

theorem filter_sortByStart (frame : Nat) (es : List Entry) :
    (sortByStart es).filter (startsAt frame) = es.filter (startsAt frame) := by
  apply filter_mergeSort notLater_trans notLater_total
  intro a b ha hb
  rw [startsAt_iff] at ha hb
  simp [Entry.notLater, ha, hb]

theorem sortByStart_congr {as bs : List Entry}
    (h : ∀ k, as.filter (startsAt k) = bs.filter (startsAt k)) : sortByStart as = sortByStart bs := by
  apply (inOrder_sortByStart as).eq_of_classes (inOrder_sortByStart bs)
  intro k
  rw [filter_sortByStart, filter_sortByStart, h]

theorem InOrder.sortByStart {es : List Entry} (h : InOrder es) : sortByStart es = es :=
  (inOrder_sortByStart es).eq_of_classes h fun k => filter_sortByStart k es

theorem sortByStart_append_sortByStart (as bs : List Entry) :
    sortByStart (as ++ sortByStart bs) = sortByStart (as ++ bs) := by
  apply sortByStart_congr
  intro k
  simp only [List.filter_append, filter_sortByStart]

theorem sortByStart_sortByStart_append (as bs : List Entry) :
    sortByStart (sortByStart as ++ bs) = sortByStart (as ++ bs) := by
  apply sortByStart_congr
  intro k
  simp only [List.filter_append, filter_sortByStart]

/-! ## Latest first -/

def latestFirst (es : List Entry) : List Entry := es.mergeSort fun a b => b.notLater a

/-- A stable sort the other way round reverses the entries of one start. -/
theorem latestFirst_eq_reverse (es : List Entry) :
    latestFirst es = (sortByStart es.reverse).reverse := by
  have trans (a b c : Entry) (hba : b.notLater a) (hcb : c.notLater b) : c.notLater a :=
    notLater_trans c b a hcb hba
  have total (a b : Entry) : b.notLater a || a.notLater b := notLater_total b a
  apply List.reverse_eq_iff.mp
  apply InOrder.eq_of_classes
  · have h := List.pairwise_mergeSort trans total es
    exact List.pairwise_reverse.mpr (h.imp fun hab => by simpa [Entry.notLater] using hab)
  · exact inOrder_sortByStart _
  · intro k
    rw [filter_sortByStart, List.filter_reverse, List.filter_reverse, latestFirst,
      filter_mergeSort trans total]
    intro a b ha hb
    rw [startsAt_iff] at ha hb
    simp [Entry.notLater, ha, hb]

end ScoreSynth.Output
