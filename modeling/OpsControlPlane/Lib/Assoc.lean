import Mathlib.Data.List.Basic
import Mathlib.Data.List.Perm.Lattice

/-!
# Lists of named values

What `List.lookup` finds in a list whose names are distinct, and what such a list is when its names
are known.
-/

namespace Assoc

variable {κ α β : Type} [DecidableEq κ] {l : List (κ × α)} {k : κ} {v : α}

theorem lookup_of_mem (hn : (l.map Prod.fst).Nodup) (h : (k, v) ∈ l) : l.lookup k = some v := by
  induction l with
  | nil => exact absurd h List.not_mem_nil
  | cons q l ih =>
    obtain ⟨hq, hl⟩ := List.nodup_cons.1 hn
    rcases List.mem_cons.1 h with rfl | h
    · exact List.lookup_cons_self
    · have hne : k ≠ q.1 := by
        rintro rfl
        exact hq (List.mem_map.2 ⟨(q.1, v), h, rfl⟩)
      rw [List.lookup_cons, beq_false_of_ne hne]
      exact ih hl h

theorem mem_of_lookup (h : l.lookup k = some v) : (k, v) ∈ l := by
  obtain ⟨before, after, rfl, -⟩ := List.lookup_eq_some_iff.1 h
  exact List.mem_append_right before List.mem_cons_self

theorem mem_iff_lookup (hn : (l.map Prod.fst).Nodup) : (k, v) ∈ l ↔ l.lookup k = some v :=
  ⟨lookup_of_mem hn, mem_of_lookup⟩

theorem lookup_of_name (h : k ∈ l.map Prod.fst) : ∃ v, l.lookup k = some v := by
  obtain ⟨⟨k, v⟩, hkv, rfl⟩ := List.mem_map.1 h
  exact Option.isSome_iff_exists.1 (List.lookup_isSome_iff.2 ⟨_, hkv, beq_self_eq_true k⟩)

theorem lookup_eq_none (h : l.lookup k = none) : k ∉ l.map Prod.fst := by
  intro hk
  obtain ⟨⟨k, v⟩, hkv, rfl⟩ := List.mem_map.1 hk
  exact bne_iff_ne.1 (List.lookup_eq_none_iff.1 h _ hkv) rfl

variable {m : List (κ × α)}

theorem perm_of_lookup (hl : (l.map Prod.fst).Nodup) (hm : (m.map Prod.fst).Nodup)
    (h : ∀ k, l.lookup k = m.lookup k) : l.Perm m := by
  refine (List.perm_ext_iff_of_nodup hl.of_map hm.of_map).2 fun kv => ?_
  obtain ⟨k, v⟩ := kv
  rw [mem_iff_lookup hl, mem_iff_lookup hm, h k]

theorem lookup_perm (hm : (m.map Prod.fst).Nodup) (h : l.Perm m) (k : κ) :
    l.lookup k = m.lookup k := by
  have hl : (l.map Prod.fst).Nodup := (h.map Prod.fst).nodup_iff.2 hm
  refine Option.ext fun v => ?_
  rw [← mem_iff_lookup hl, ← mem_iff_lookup hm, h.mem_iff]

/-- A list with two names is these two values. -/
theorem perm_pair (hn : (l.map Prod.fst).Nodup) {a b : κ} (hab : a ≠ b) {x y : α}
    (hx : l.lookup a = some x) (hy : l.lookup b = some y)
    (hl : ∀ k ∈ l.map Prod.fst, k = a ∨ k = b) : l.Perm [(a, x), (b, y)] := by
  refine perm_of_lookup hn (by simpa using hab) fun k => ?_
  by_cases hk : k ∈ l.map Prod.fst
  · rcases hl k hk with rfl | rfl
    · rw [hx, List.lookup_cons_self]
    · rw [hy, List.lookup_cons, beq_false_of_ne hab.symm, List.lookup_cons_self]
  · have hka : k ≠ a := by
      rintro rfl
      exact hk (List.mem_map_of_mem (mem_of_lookup hx))
    have hkb : k ≠ b := by
      rintro rfl
      exact hk (List.mem_map_of_mem (mem_of_lookup hy))
    rw [List.lookup_cons, beq_false_of_ne hka, List.lookup_cons, beq_false_of_ne hkb]
    exact List.lookup_eq_none_iff.2 fun kv hkv =>
      bne_iff_ne.2 fun h => hk (h ▸ List.mem_map_of_mem hkv)

theorem lookup_filter_ne {n : κ} (h : k ≠ n) (l : List (κ × α)) :
    (l.filter fun kv => kv.1 ≠ n).lookup k = l.lookup k := by
  induction l with
  | nil => rfl
  | cons kv l ih =>
    obtain ⟨m, a⟩ := kv
    by_cases hm : m = n
    · subst hm
      rw [List.filter_cons_of_neg (by simp), ih, List.lookup_cons, beq_false_of_ne h]
    · rw [List.filter_cons_of_pos (by simpa using hm), List.lookup_cons, List.lookup_cons, ih]

end Assoc
