import Mathlib.Data.List.GetD
import Mathlib.Data.List.Sort

/-!
# Medians

Sorting keeps a pointwise order of lists (`sorted_pointwise`), so that an element of a given rank,
and the median with it, is monotone.
-/

namespace Medians

variable {α : Type} [LinearOrder α] {l l' : List α}

theorem orderedInsert_pointwise (h : List.Forall₂ (· ≤ ·) l l') (hl : l.Pairwise (· ≤ ·))
    (hl' : l'.Pairwise (· ≤ ·)) {a b : α} (hab : a ≤ b) :
    List.Forall₂ (· ≤ ·) (l.orderedInsert (· ≤ ·) a) (l'.orderedInsert (· ≤ ·) b) := by
  induction h generalizing a b with
  | nil => exact .cons hab .nil
  | @cons x y xs ys hxy hrest ih =>
    obtain ⟨hx, hxs⟩ := List.pairwise_cons.1 hl
    obtain ⟨hy, hys⟩ := List.pairwise_cons.1 hl'
    have hfirst : xs.orderedInsert (· ≤ ·) x = x :: xs := by
      cases xs with
      | nil => rfl
      | cons z zs => exact List.orderedInsert_cons_of_le _ _ (hx z List.mem_cons_self)
    have hsecond : ys.orderedInsert (· ≤ ·) y = y :: ys := by
      cases ys with
      | nil => rfl
      | cons z zs => exact List.orderedInsert_cons_of_le _ _ (hy z List.mem_cons_self)
    by_cases hax : a ≤ x <;> by_cases hby : b ≤ y
    · rw [List.orderedInsert_cons_of_le _ _ hax, List.orderedInsert_cons_of_le _ _ hby]
      exact .cons hab (.cons hxy hrest)
    · rw [List.orderedInsert_cons_of_le _ _ hax, List.orderedInsert_cons, if_neg hby, ← hfirst]
      exact .cons (hax.trans hxy) (ih hxs hys (hxy.trans (le_of_not_ge hby)))
    · rw [List.orderedInsert_cons, if_neg hax, List.orderedInsert_cons_of_le _ _ hby, ← hsecond]
      exact .cons ((le_of_not_ge hax).trans hab) (ih hxs hys (hab.trans hby))
    · rw [List.orderedInsert_cons, if_neg hax, List.orderedInsert_cons, if_neg hby]
      exact .cons hxy (ih hxs hys hab)

theorem sorted_pointwise (h : List.Forall₂ (· ≤ ·) l l') :
    List.Forall₂ (· ≤ ·) (l.insertionSort (· ≤ ·)) (l'.insertionSort (· ≤ ·)) := by
  induction h with
  | nil => exact .nil
  | @cons a b xs ys hab _ ih =>
    exact orderedInsert_pointwise ih (List.pairwise_insertionSort _ xs)
      (List.pairwise_insertionSort _ ys) hab

/-- The element in the middle of the sorted values, or the mean of the two, rounded down. -/
def median (values : List ℤ) : Option ℤ :=
  let ordered := values.insertionSort (· ≤ ·)
  let middle := ordered.length / 2
  if values = [] then none
  else if ordered.length % 2 = 1 then ordered[middle]?
  else some ((ordered.getD (middle - 1) 0 + ordered.getD middle 0) / 2)

theorem getElem?_pointwise (h : List.Forall₂ (· ≤ ·) l l') {i : ℕ} {a b : α} (ha : l[i]? = some a)
    (hb : l'[i]? = some b) : a ≤ b := by
  obtain ⟨hi, rfl⟩ := List.getElem?_eq_some_iff.1 ha
  obtain ⟨hi', rfl⟩ := List.getElem?_eq_some_iff.1 hb
  exact h.get hi hi'

theorem getD_pointwise (h : List.Forall₂ (· ≤ ·) l l') (i : ℕ) (d : α) :
    l.getD i d ≤ l'.getD i d := by
  rcases Nat.lt_or_ge i l.length with hi | hi
  · have hi' : i < l'.length := h.length_eq ▸ hi
    rw [List.getD_eq_getElem _ _ hi, List.getD_eq_getElem _ _ hi']
    exact h.get hi hi'
  · rw [List.getD_eq_default _ _ hi, List.getD_eq_default _ _ (h.length_eq ▸ hi)]

theorem median_eq_none {l : List ℤ} : median l = none ↔ l = [] := by
  unfold median
  dsimp only
  split_ifs with hnil hodd
  · exact iff_of_true rfl hnil
  · refine iff_of_false (fun h => ?_) hnil
    have hle := List.getElem?_eq_none_iff.1 h
    omega
  · exact iff_of_false (fun h => (by cases h)) hnil

theorem median_mono {l l' : List ℤ} (h : List.Forall₂ (· ≤ ·) l l') {m m' : ℤ}
    (hm : median l = some m) (hm' : median l' = some m') : m ≤ m' := by
  have hsorted := sorted_pointwise h
  unfold median at hm hm'
  dsimp only at hm hm'
  rw [← hsorted.length_eq] at hm'
  split_ifs at hm hm'
  · exact getElem?_pointwise hsorted hm hm'
  · obtain rfl := Option.some.inj hm
    obtain rfl := Option.some.inj hm'
    exact Int.ediv_le_ediv (by decide)
      (Int.add_le_add (getD_pointwise hsorted _ _) (getD_pointwise hsorted _ _))

theorem median_mem {l : List ℤ} {lo hi m : ℤ} (h : ∀ v ∈ l, lo ≤ v ∧ v ≤ hi)
    (hm : median l = some m) : lo ≤ m ∧ m ≤ hi := by
  have hmem : ∀ v ∈ l.insertionSort (· ≤ ·), lo ≤ v ∧ v ≤ hi := fun v hv =>
    h v ((List.mem_insertionSort _).1 hv)
  unfold median at hm
  dsimp only at hm
  split_ifs at hm with hnil hodd
  · exact hmem m (List.mem_of_getElem? hm)
  · have hlength : 0 < (l.insertionSort (· ≤ ·)).length := by
      rw [List.length_insertionSort]
      exact List.length_pos_iff.2 hnil
    have hat : ∀ i < (l.insertionSort (· ≤ ·)).length,
        lo ≤ (l.insertionSort (· ≤ ·)).getD i 0 ∧ (l.insertionSort (· ≤ ·)).getD i 0 ≤ hi := by
      intro i hi'
      rw [List.getD_eq_getElem _ _ hi']
      exact hmem _ (List.getElem_mem hi')
    obtain ⟨hlo, hhi⟩ := hat ((l.insertionSort (· ≤ ·)).length / 2 - 1) (by omega)
    obtain ⟨hlo', hhi'⟩ := hat ((l.insertionSort (· ≤ ·)).length / 2) (by omega)
    obtain rfl := Option.some.inj hm
    omega

end Medians
