import Mathlib.Algebra.BigOperators.Group.List.Basic
import Mathlib.Data.List.Nodup

/-!
# Tables of sums

`add` adds a value to the row of its key, and `collect` does so for a list of items. The rows of a
collected table are the sums of the items of their keys (`value_of_mem`), and whatever part of the
keys is taken, its rows sum up to its items (`sumPart_collect`).
-/

namespace Grouped

variable {κ β : Type} [DecidableEq κ] [AddCommMonoid β]

/-- A value is added to the row of its key. -/
def add (k : κ) (b : β) : List (κ × β) → List (κ × β)
  | [] => [(k, 0 + b)]
  | r :: l => if r.1 = k then (k, r.2 + b) :: l else r :: add k b l

def addAll (items l : List (κ × β)) : List (κ × β) :=
  items.foldl (fun l i => add i.1 i.2 l) l

def collect (items : List (κ × β)) : List (κ × β) :=
  addAll items []

/-- The sum of the rows whose keys are taken. -/
def sumPart (p : κ → Bool) (l : List (κ × β)) : β :=
  ((l.filter fun r => p r.1).map Prod.snd).sum

omit [DecidableEq κ] in
@[simp] theorem sumPart_nil (p : κ → Bool) : sumPart p ([] : List (κ × β)) = 0 :=
  rfl

omit [DecidableEq κ] in
theorem sumPart_cons (p : κ → Bool) (r : κ × β) (l : List (κ × β)) :
    sumPart p (r :: l) = (if p r.1 = true then r.2 else 0) + sumPart p l := by
  unfold sumPart
  rw [List.filter_cons]
  split
  · rw [List.map_cons, List.sum_cons]
  · rw [zero_add]

omit [DecidableEq κ] in
theorem sumPart_append (p : κ → Bool) (l m : List (κ × β)) :
    sumPart p (l ++ m) = sumPart p l + sumPart p m := by
  unfold sumPart
  rw [List.filter_append, List.map_append, List.sum_append]

variable {l : List (κ × β)}

omit [DecidableEq κ] in
theorem sumPart_perm (p : κ → Bool) {m : List (κ × β)} (h : l.Perm m) : sumPart p l = sumPart p m :=
  ((h.filter _).map _).sum_eq

omit [DecidableEq κ] in
theorem sumPart_filter (p q : κ → Bool) (l : List (κ × β)) :
    sumPart p (l.filter fun r => q r.1) = sumPart (fun k => p k && q k) l := by
  unfold sumPart
  rw [List.filter_filter]

omit [DecidableEq κ] in
theorem sumPart_map {ι : Type} (p : κ → Bool) (f : ι → κ) (l : List (ι × β)) :
    sumPart p (l.map fun r => (f r.1, r.2)) = sumPart (fun i => p (f i)) l := by
  unfold sumPart
  rw [List.filter_map, List.map_map]
  rfl

/-! ## One item -/

theorem sumPart_add (p : κ → Bool) (k : κ) (b : β) (l : List (κ × β)) :
    sumPart p (add k b l) = sumPart p l + if p k = true then b else 0 := by
  induction l with
  | nil =>
    rw [add, sumPart_cons, sumPart_nil, zero_add, add_zero, zero_add]
  | cons r l ih =>
    rw [add]
    split
    · next hk =>
      obtain rfl := hk
      rw [sumPart_cons, sumPart_cons]
      split
      · rw [add_assoc, add_assoc, add_comm b]
      · rw [add_zero]
    · rw [sumPart_cons, sumPart_cons, ih, add_assoc]

theorem mem_keys_add (k : κ) (b : β) (l : List (κ × β)) (k' : κ) :
    k' ∈ (add k b l).map Prod.fst ↔ k' = k ∨ k' ∈ l.map Prod.fst := by
  induction l with
  | nil => simp [add]
  | cons r l ih =>
    rw [add]
    split
    · next hk =>
      obtain rfl := hk
      simp
    · rw [List.map_cons, List.mem_cons, ih, List.map_cons, List.mem_cons]
      exact or_left_comm

theorem nodup_keys_add (k : κ) (b : β) (h : (l.map Prod.fst).Nodup) :
    ((add k b l).map Prod.fst).Nodup := by
  induction l with
  | nil => exact List.nodup_singleton k
  | cons r l ih =>
    obtain ⟨hr, hl⟩ := List.nodup_cons.1 h
    rw [add]
    split
    · next hk =>
      obtain rfl := hk
      exact h
    · next hk =>
      refine List.nodup_cons.2 ⟨fun hmem => ?_, ih hl⟩
      exact ((mem_keys_add k b l r.1).1 hmem).elim hk hr

/-! ## All items -/

theorem sumPart_addAll (p : κ → Bool) (items l : List (κ × β)) :
    sumPart p (addAll items l) = sumPart p l + sumPart p items := by
  induction items generalizing l with
  | nil => exact (add_zero _).symm
  | cons i items ih =>
    rw [addAll, List.foldl_cons, ← addAll, ih, sumPart_add, sumPart_cons, add_assoc]

theorem mem_keys_addAll (items l : List (κ × β)) (k : κ) :
    k ∈ (addAll items l).map Prod.fst ↔ k ∈ items.map Prod.fst ∨ k ∈ l.map Prod.fst := by
  induction items generalizing l with
  | nil => simp [addAll]
  | cons i items ih =>
    rw [addAll, List.foldl_cons, ← addAll, ih, mem_keys_add, List.map_cons, List.mem_cons]
    tauto

theorem nodup_keys_addAll (items : List (κ × β)) (h : (l.map Prod.fst).Nodup) :
    ((addAll items l).map Prod.fst).Nodup := by
  induction items generalizing l with
  | nil => exact h
  | cons i items ih => exact ih (nodup_keys_add i.1 i.2 h)

theorem addAll_append (items items' l : List (κ × β)) :
    addAll (items ++ items') l = addAll items' (addAll items l) :=
  List.foldl_append

/-! ## The table of items -/

theorem sumPart_collect (p : κ → Bool) (items : List (κ × β)) :
    sumPart p (collect items) = sumPart p items :=
  (sumPart_addAll p items []).trans (zero_add _)

theorem mem_keys_collect (items : List (κ × β)) (k : κ) :
    k ∈ (collect items).map Prod.fst ↔ k ∈ items.map Prod.fst := by
  rw [collect, mem_keys_addAll, List.map_nil]
  exact or_iff_left List.not_mem_nil

theorem nodup_keys_collect (items : List (κ × β)) : ((collect items).map Prod.fst).Nodup :=
  nodup_keys_addAll items List.nodup_nil

variable {r : κ × β}

theorem sumPart_of_mem (h : (l.map Prod.fst).Nodup) (hr : r ∈ l) :
    sumPart (fun k => k = r.1) l = r.2 := by
  induction l with
  | nil => exact absurd hr List.not_mem_nil
  | cons q l ih =>
    obtain ⟨hq, hl⟩ := List.nodup_cons.1 h
    rw [sumPart_cons]
    rcases List.mem_cons.1 hr with rfl | hmem
    · have hnone : sumPart (fun k => k = r.1) l = 0 := by
        unfold sumPart
        rw [List.filter_eq_nil_iff.2 fun q' hq' heq => hq ?_]
        · rfl
        · exact of_decide_eq_true heq ▸ List.mem_map_of_mem hq'
      rw [if_pos (decide_eq_true rfl), hnone, add_zero]
    · have hne : ¬q.1 = r.1 := fun heq => hq (heq ▸ List.mem_map_of_mem hmem)
      rw [if_neg (by simpa using hne), zero_add]
      exact ih hl hmem

theorem value_of_mem {items : List (κ × β)} (h : r ∈ collect items) :
    r.2 = sumPart (fun k => k = r.1) items :=
  (sumPart_of_mem (nodup_keys_collect items) h).symm.trans (sumPart_collect _ items)

end Grouped
