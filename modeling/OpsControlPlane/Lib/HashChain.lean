import Mathlib.Data.List.Basic
import Mathlib.Tactic

/-!
# Hash chains

A list of rows, each of which stores the hash of the row before it and its own hash.
`Chain` says where a row keeps the two and which rows are good at their position, and
`Linked` that every row is good and refers to the one before it, from the genesis hash
on.

`linked_append` extends a chain by a row that refers to its tip. `linked_unique` is the
tamper evidence: if the own hash of a good row determines the row, then the length and
the tip of a chain determine all of it, by induction from the tip backwards.
`linked_unique_of_tip` does without the length, if no row has the genesis hash.
-/

namespace HashChain

/-- Where a row keeps the hash of its predecessor and its own, and the rows that are good
at a position. -/
structure Chain (R H : Type*) where
  (prev own : R → H)
  Good : ℕ → R → Prop

variable {R H : Type*} {C : Chain R H}

/-- The rows from position `n` on are good and chained to the hash `h`. -/
def Linked (C : Chain R H) : ℕ → H → List R → Prop
  | _, _, [] => True
  | n, h, r :: rs => C.Good n r ∧ C.prev r = h ∧ Linked C (n + 1) (C.own r) rs

/-- The hash of the last row, or the genesis hash. -/
def tip (C : Chain R H) : H → List R → H
  | h, [] => h
  | _, r :: rs => tip C (C.own r) rs

theorem tip_append (h : H) (rs : List R) (r : R) : tip C h (rs ++ [r]) = C.own r := by
  induction rs generalizing h with
  | nil => rfl
  | cons q rs ih => exact ih _

variable {rs rs' : List R} {n : ℕ} {h : H}

theorem linked_append {r : R} : Linked C n h (rs ++ [r]) ↔
      Linked C n h rs ∧ C.Good (n + rs.length) r ∧ C.prev r = tip C h rs := by
  induction rs generalizing n h with
  | nil => simp [Linked, tip]
  | cons q rs ih =>
    have hn : n + 1 + rs.length = n + (q :: rs).length := by
      rw [List.length_cons]
      omega
    rw [List.cons_append, Linked, ih, hn, Linked, tip]
    tauto

/-- The own hash of a good row determines the row. -/
def Binding (C : Chain R H) : Prop :=
  ∀ n r r', C.Good n r → C.Good n r' → C.own r = C.own r' → r = r'

theorem linked_unique (hC : Binding C) (hrs : Linked C n h rs) (hrs' : Linked C n h rs')
    (hlen : rs.length = rs'.length) (htip : tip C h rs = tip C h rs') : rs = rs' := by
  induction rs using List.reverseRecOn generalizing rs' with
  | nil => exact (List.length_eq_zero_iff.1 hlen.symm).symm
  | append_singleton rs r ih =>
    rcases List.eq_nil_or_concat rs' with rfl | ⟨rs', r', rfl⟩
    · simp at hlen
    · rw [List.concat_eq_append] at *
      rw [tip_append, tip_append] at htip
      rw [linked_append] at hrs hrs'
      obtain ⟨hl, hg, hp⟩ := hrs
      obtain ⟨hl', hg', hp'⟩ := hrs'
      have hl0 : rs.length = rs'.length := by simpa using hlen
      rw [hl0] at hg
      obtain rfl := hC _ r r' hg hg' htip
      rw [ih hl hl' hl0 (hp.symm.trans hp')]

/-- The own hash of a good row determines the row, wherever each of the two is good. -/
def BindingAnywhere (C : Chain R H) : Prop :=
  ∀ m n r r', C.Good m r → C.Good n r' → C.own r = C.own r' → r = r'

/-- Two chains with one tip are one chain, if no good row has the genesis hash. -/
theorem linked_unique_of_tip (hC : BindingAnywhere C) {m : ℕ}
    (hgenesis : ∀ n r, C.Good n r → C.own r ≠ h) (hrs : Linked C m h rs) (hrs' : Linked C n h rs')
    (htip : tip C h rs = tip C h rs') : rs = rs' := by
  induction rs using List.reverseRecOn generalizing rs' with
  | nil =>
    rcases List.eq_nil_or_concat rs' with rfl | ⟨rs', r', rfl⟩
    · rfl
    · rw [List.concat_eq_append] at *
      rw [tip_append] at htip
      exact absurd htip.symm (hgenesis _ _ (linked_append.1 hrs').2.1)
  | append_singleton rs r ih =>
    rw [tip_append] at htip
    rw [linked_append] at hrs
    obtain ⟨hl, hg, hp⟩ := hrs
    rcases List.eq_nil_or_concat rs' with rfl | ⟨rs', r', rfl⟩
    · exact absurd htip (hgenesis _ _ hg)
    · rw [List.concat_eq_append] at *
      rw [tip_append] at htip
      rw [linked_append] at hrs'
      obtain ⟨hl', hg', hp'⟩ := hrs'
      obtain rfl := hC _ _ r r' hg hg' htip
      rw [ih hl hl' (hp.symm.trans hp')]

end HashChain
