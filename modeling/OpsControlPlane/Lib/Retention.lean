import Mathlib.Data.List.Sort
import Mathlib.Data.List.Nodup

/-!
# Retention

Of things that are ordered, a store keeps the newest and removes the others. `above` counts those
that are newer than one. `mem_drop_newestFirst` and `mem_take_oldestFirst` say which ones the two
ways to cut a sorted list choose.
-/

namespace Retention

variable {κ : Type} [LinearOrder κ]

def above (x : κ) (l : List κ) : ℕ :=
  l.countP (x < ·)

def newestFirst (l : List κ) : List κ :=
  l.insertionSort (· ≥ ·)

def oldestFirst (l : List κ) : List κ :=
  l.insertionSort (· ≤ ·)

variable {l : List κ} {x y : κ}

@[simp] theorem mem_newestFirst : x ∈ newestFirst l ↔ x ∈ l :=
  List.mem_insertionSort _

theorem nodup_newestFirst (h : l.Nodup) : (newestFirst l).Nodup :=
  (List.perm_insertionSort _ l).nodup_iff.2 h

theorem length_oldestFirst (l : List κ) : (oldestFirst l).length = l.length :=
  (List.perm_insertionSort _ l).length_eq

theorem length_newestFirst (l : List κ) : (newestFirst l).length = l.length :=
  (List.perm_insertionSort _ l).length_eq

theorem above_perm {l' : List κ} (h : l.Perm l') : above x l = above x l' :=
  h.countP_eq _

/-- In a descending list the position is the number of those above. -/
theorem mem_drop_iff (hsorted : l.Pairwise (· ≥ ·)) (hnodup : l.Nodup) (hx : x ∈ l) (n : ℕ) :
    x ∈ l.drop n ↔ n ≤ above x l := by
  induction l generalizing n with
  | nil => cases hx
  | cons a l ih =>
    obtain ⟨hle, hsorted⟩ := List.pairwise_cons.1 hsorted
    obtain ⟨hnot, hnodup⟩ := List.nodup_cons.1 hnodup
    cases n with
    | zero => exact iff_of_true hx (Nat.zero_le _)
    | succ n =>
      rw [List.drop_succ_cons]
      unfold above
      rw [List.countP_cons]
      rcases List.mem_cons.1 hx with rfl | hx
      · have hzero : l.countP (x < ·) = 0 := by
          refine List.countP_eq_zero.2 fun y hy => ?_
          simpa using hle y hy
        rw [hzero, if_neg (by simp)]
        exact iff_of_false (fun h => hnot (List.mem_of_mem_drop h)) (by omega)
      · have hlt : x < a := lt_of_le_of_ne (hle x hx) fun h => hnot (h ▸ hx)
        rw [ih hsorted hnodup hx, if_pos (by simpa using hlt)]
        exact Nat.succ_le_succ_iff.symm

variable {n : ℕ}

theorem mem_drop_newestFirst (h : l.Nodup) :
    x ∈ (newestFirst l).drop n ↔ x ∈ l ∧ n ≤ above x l := by
  have hperm : (newestFirst l).Perm l := List.perm_insertionSort _ l
  have hsorted : (newestFirst l).Pairwise (· ≥ ·) := List.pairwise_insertionSort _ l
  constructor
  · intro hx
    have hmem := mem_newestFirst.1 (List.mem_of_mem_drop hx)
    rw [mem_drop_iff hsorted (nodup_newestFirst h) (mem_newestFirst.2 hmem),
      above_perm hperm] at hx
    exact ⟨hmem, hx⟩
  · rintro ⟨hmem, hn⟩
    rw [mem_drop_iff hsorted (nodup_newestFirst h) (mem_newestFirst.2 hmem), above_perm hperm]
    exact hn

theorem mem_take_oldestFirst (h : l.Nodup) :
    x ∈ (oldestFirst l).take (l.length - n) ↔ x ∈ l ∧ n ≤ above x l := by
  have hreverse : newestFirst l = (oldestFirst l).reverse := by
    refine List.Perm.eq_of_pairwise' (r := (· ≥ ·)) (List.pairwise_insertionSort _ l) ?_ ?_
    · exact List.pairwise_reverse.2 (List.pairwise_insertionSort _ l)
    · exact (List.perm_insertionSort _ l).trans
        ((List.reverse_perm _).trans (List.perm_insertionSort _ l)).symm
  rw [← mem_drop_newestFirst h, hreverse, List.drop_reverse, List.mem_reverse,
    length_oldestFirst]

theorem length_le_of_above_lt (h : l.Nodup) (hl : ∀ x ∈ l, above x l < n) : l.length ≤ n := by
  have hdrop : (newestFirst l).drop n = [] := by
    refine List.eq_nil_iff_forall_not_mem.2 fun x hx => ?_
    obtain ⟨hmem, hle⟩ := (mem_drop_newestFirst h).1 hx
    have hlt := hl x hmem
    omega
  rw [← length_newestFirst]
  exact List.drop_eq_nil_iff.1 hdrop

theorem above_cons (x y : κ) (l : List κ) :
    above x (y :: l) = above x l + if x < y then 1 else 0 := by
  unfold above
  rw [List.countP_cons]
  simp

theorem above_le_cons (x y : κ) (l : List κ) : above x l ≤ above x (y :: l) := by
  rw [above_cons]
  omega

theorem above_mono (h : x ≤ y) (l : List κ) : above y l ≤ above x l := by
  refine List.countP_mono_left fun z _ hz => ?_
  simp only [decide_eq_true_eq] at hz ⊢
  exact lt_of_le_of_lt h hz

theorem le_above_filter_ne (hy : n ≤ above y l) (hx : n ≤ above x l) :
    n ≤ above x (l.filter (· ≠ y)) := by
  have hkeep : ∀ z, y ≤ z → above z (l.filter (· ≠ y)) = above z l := by
    intro z hz
    unfold above
    rw [List.countP_filter]
    refine List.countP_congr fun w _ => ?_
    simp only [ne_eq, decide_not, Bool.and_eq_true, decide_eq_true_eq, Bool.not_eq_true',
      decide_eq_false_iff_not, and_iff_left_iff_imp]
    exact fun h => ne_of_gt (lt_of_le_of_lt hz h)
  rcases le_total y x with hle | hle
  · rw [hkeep x hle]
    exact hx
  · rw [← hkeep y le_rfl] at hy
    exact hy.trans (above_mono hle _)

end Retention
