import Mathlib.Data.List.Sort
import Mathlib.Data.List.Nodup

/-!
# Paging by key

Rows are read in pages, from the greatest key downwards. A page is what comes first of the rows
below the cursor, and the next cursor is the key of its last row. `walk` reads page after page while
rows may be added: what it reads decreases (`walk_pairwise`), it reads every row that was there when
it began (`mem_walk`), and it ends if rows are not added forever (`walk_ends`).
-/

namespace Keyset

variable {α κ : Type} [LinearOrder κ] (key : α → κ)

/-- The row comes after the cursor. -/
def Below (c : Option κ) (a : α) : Prop :=
  ∀ k ∈ c, key a < k

instance (c : Option κ) (a : α) : Decidable (Below key c a) :=
  inferInstanceAs (Decidable (∀ k ∈ c, key a < k))

/-- The rows after the cursor, in order. -/
def rest (c : Option κ) (rows : List α) : List α :=
  (rows.filter fun a => Below key c a).insertionSort fun a b => key b ≤ key a

def records (n : ℕ) (c : Option κ) (rows : List α) : List α :=
  (rest key c rows).take (n + 1)

def next (n : ℕ) (c : Option κ) (rows : List α) : Option κ :=
  if n + 1 < (rest key c rows).length then ((rest key c rows)[n]?).map key else none

/-- Page after page, with a bound on their number, and whether the last one was read. -/
def walk (n : ℕ) (rows : ℕ → List α) : ℕ → ℕ → Option κ → List α × Bool
  | 0, _, _ => ([], false)
  | m + 1, i, c => match next key n c (rows i) with
    | none => (records key n c (rows i), true)
    | some k =>
      let r := walk n rows m (i + 1) (some k)
      (records key n c (rows i) ++ r.1, r.2)

/-! ## A page -/

variable {key} {n : ℕ} {c : Option κ} {rows : List α} {a : α} {k : κ}

theorem mem_rest : a ∈ rest key c rows ↔ a ∈ rows ∧ Below key c a := by
  rw [rest, (List.perm_insertionSort ..).mem_iff, List.mem_filter, decide_eq_true_eq]

theorem rest_pairwise (h : (rows.map key).Nodup) :
    (rest key c rows).Pairwise fun a b => key b < key a := by
  have hsorted : (rest key c rows).Pairwise fun a b => key b ≤ key a :=
    List.pairwise_insertionSort (fun a b => key b ≤ key a) _
  have hnodup : ((rest key c rows).map key).Nodup :=
    ((List.perm_insertionSort ..).map key).nodup_iff.2 (h.sublist (List.filter_sublist.map key))
  exact (hsorted.and (List.pairwise_map.1 hnodup)).imp fun h => lt_of_le_of_ne h.1 h.2.symm

theorem mem_of_mem_records (h : a ∈ records key n c rows) : a ∈ rows ∧ Below key c a :=
  mem_rest.1 (List.mem_of_mem_take h)

theorem records_pairwise (h : (rows.map key).Nodup) :
    (records key n c rows).Pairwise fun a b => key b < key a :=
  (rest_pairwise h).sublist (List.take_sublist _ _)

theorem mem_records_of_next_eq_none (h : next key n c rows = none) (ha : a ∈ rows)
    (hbelow : Below key c a) : a ∈ records key n c rows := by
  have hlen : (rest key c rows).length ≤ n + 1 := by
    by_contra hlt
    rw [next, if_pos (not_le.1 hlt), List.getElem?_eq_getElem (by omega)] at h
    cases h
  rw [records, List.take_of_length_le hlen]
  exact mem_rest.2 ⟨ha, hbelow⟩

theorem next_split (h : next key n c rows = some k) : ∃ a,
    key a = k ∧ records key n c rows = (rest key c rows).take n ++ [a] ∧
      rest key c rows = (rest key c rows).take n ++ a :: (rest key c rows).drop (n + 1) := by
  rw [next] at h
  split at h
  · next hlt =>
    rw [List.getElem?_eq_getElem (by omega)] at h
    refine ⟨_, Option.some.inj h, ?_, ?_⟩
    · rw [records, List.take_append_getElem]
    · rw [List.getElem_cons_drop, List.take_append_drop]
  · cases h

theorem le_of_mem_records (hkeys : (rows.map key).Nodup) (h : next key n c rows = some k)
    (ha : a ∈ records key n c rows) : k ≤ key a := by
  obtain ⟨b, rfl, hrecords, -⟩ := next_split h
  have hpair := records_pairwise (n := n) (c := c) hkeys
  rw [hrecords] at ha hpair
  rcases List.mem_append.1 ha with ha | ha
  · exact ((List.pairwise_append.1 hpair).2.2 a ha b List.mem_cons_self).le
  · rw [List.mem_singleton.1 ha]

theorem exists_mem_records (h : next key n c rows = some k) :
    ∃ a ∈ records key n c rows, key a = k := by
  obtain ⟨a, ha, hrecords, -⟩ := next_split h
  exact ⟨a, hrecords ▸ List.mem_append_right _ List.mem_cons_self, ha⟩

theorem mem_records_or_lt (hkeys : (rows.map key).Nodup) (h : next key n c rows = some k)
    (ha : a ∈ rows) (hbelow : Below key c a) : a ∈ records key n c rows ∨ key a < k := by
  obtain ⟨b, rfl, hrecords, hrest⟩ := next_split h
  have hpair := rest_pairwise (c := c) hkeys
  have hmem := mem_rest.2 ⟨ha, hbelow⟩
  rw [hrest] at hmem hpair
  rw [hrecords]
  rcases List.mem_append.1 hmem with hmem | hmem
  · exact .inl (List.mem_append_left _ hmem)
  · rcases List.mem_cons.1 hmem with rfl | hmem
    · exact .inl (List.mem_append_right _ List.mem_cons_self)
    · exact .inr (List.rel_of_pairwise_cons (List.pairwise_append.1 hpair).2.1 hmem)

theorem lt_of_next (h : next key n c rows = some k) : ∀ k' ∈ c, k < k' := by
  obtain ⟨a, ha, rfl⟩ := exists_mem_records h
  exact (mem_of_mem_records ha).2

theorem Below.of_next (h : next key n c rows = some k) (ha : Below key (some k) a) :
    Below key c a := fun k' hk' => (ha k rfl).trans (lt_of_next h k' hk')

/-! ## Page after page -/

variable {rows : ℕ → List α} {m i : ℕ}

theorem mem_of_mem_walk (h : a ∈ (walk key n rows m i c).1) :
    (∃ j, i ≤ j ∧ a ∈ rows j) ∧ Below key c a := by
  induction m generalizing i c with
  | zero => exact absurd h List.not_mem_nil
  | succ m ih =>
    rw [walk] at h
    cases hnext : next key n c (rows i) with
    | none =>
      rw [hnext] at h
      have hmem := mem_of_mem_records h
      exact ⟨⟨i, le_rfl, hmem.1⟩, hmem.2⟩
    | some k =>
      rw [hnext] at h
      rcases List.mem_append.1 h with h | h
      · have hmem := mem_of_mem_records h
        exact ⟨⟨i, le_rfl, hmem.1⟩, hmem.2⟩
      · obtain ⟨⟨j, hj, hmem⟩, hbelow⟩ := ih h
        exact ⟨⟨j, by omega, hmem⟩, hbelow.of_next hnext⟩

/-- What is read decreases. -/
theorem walk_pairwise (hkeys : ∀ i, ((rows i).map key).Nodup) (m i : ℕ) (c : Option κ) :
    (walk key n rows m i c).1.Pairwise fun a b => key b < key a := by
  induction m generalizing i c with
  | zero => exact List.Pairwise.nil
  | succ m ih =>
    rw [walk]
    cases hnext : next key n c (rows i) with
    | none => exact records_pairwise (hkeys i)
    | some k =>
      refine List.pairwise_append.2 ⟨records_pairwise (hkeys i), ih _ _, fun a ha b hb => ?_⟩
      exact ((mem_of_mem_walk hb).2 k rfl).trans_le (le_of_mem_records (hkeys i) hnext ha)

theorem mem_walk (hkeys : ∀ i, ((rows i).map key).Nodup) (hgrows : ∀ i, rows i ⊆ rows (i + 1))
    (h : (walk key n rows m i c).2 = true) (ha : a ∈ rows i) (hbelow : Below key c a) :
    a ∈ (walk key n rows m i c).1 := by
  induction m generalizing i c with
  | zero => cases h
  | succ m ih =>
    rw [walk] at h ⊢
    cases hnext : next key n c (rows i) with
    | none => exact mem_records_of_next_eq_none hnext ha hbelow
    | some k =>
      rw [hnext] at h
      rcases mem_records_or_lt (hkeys i) hnext ha hbelow with hmem | hlt
      · exact List.mem_append_left _ hmem
      · refine List.mem_append_right _ (ih h (hgrows i ha) fun k' hk' => ?_)
        exact Option.some.inj hk' ▸ hlt

variable {l : List α}

theorem walk_ends_of_eq (hstays : ∀ j, i ≤ j → rows j = l) (c : Option κ) :
    ∃ m, (walk key n rows m i c).2 = true := by
  generalize hlen : (l.filter fun a => Below key c a).length = len
  induction len using Nat.strong_induction_on generalizing i c with
  | _ len ih =>
    cases hnext : next key n c (rows i) with
    | none => exact ⟨1, by rw [walk, hnext]⟩
    | some k =>
      have hfilter : (l.filter fun a => Below key (some k) a) =
          (l.filter fun a => Below key c a).filter fun a => Below key (some k) a := by
        rw [List.filter_filter]
        refine List.filter_congr fun a _ => ?_
        rw [← Bool.decide_and]
        exact decide_eq_decide.2 ⟨fun h => ⟨h, h.of_next hnext⟩, And.left⟩
      obtain ⟨a, ha, hk⟩ := exists_mem_records hnext
      have hmem := mem_of_mem_records ha
      rw [hstays i le_rfl] at hmem
      have hlt : (l.filter fun a => Below key (some k) a).length < len := by
        rw [hfilter, ← hlen, List.length_filter_lt_length_iff_exists]
        refine ⟨a, List.mem_filter.2 ⟨hmem.1, decide_eq_true hmem.2⟩, fun h => ?_⟩
        exact ((of_decide_eq_true h : Below key (some k) a) k rfl).ne hk
      obtain ⟨m, hm⟩ := ih _ hlt (fun j (hj : i + 1 ≤ j) => hstays j (by omega)) (some k) rfl
      exact ⟨m + 1, by rw [walk, hnext]; exact hm⟩

theorem walk_ends {N : ℕ} (hstays : ∀ j, N ≤ j → rows j = l) (i : ℕ) (c : Option κ) :
    ∃ m, (walk key n rows m i c).2 = true := by
  obtain ⟨d, hd⟩ : ∃ d, N ≤ i + d := ⟨N, Nat.le_add_left N i⟩
  induction d generalizing i c with
  | zero => exact walk_ends_of_eq (fun j hj => hstays j (by omega)) c
  | succ d ih =>
    cases hnext : next key n c (rows i) with
    | none => exact ⟨1, by rw [walk, hnext]⟩
    | some k =>
      obtain ⟨m, hm⟩ := ih (i + 1) (some k) (by omega)
      exact ⟨m + 1, by rw [walk, hnext]; exact hm⟩

end Keyset
