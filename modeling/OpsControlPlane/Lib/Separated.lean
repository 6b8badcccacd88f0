import Mathlib.Data.List.Basic

/-!
# Texts with separators

A text in which a separator stands between or behind parts that do not contain it determines the
parts.
-/

namespace Separated

variable {α : Type} {sep : α}

/-- The text before the first separator. -/
theorem append_cons_inj {a a' b b' : List α} (ha : sep ∉ a) (ha' : sep ∉ a')
    (h : a ++ sep :: b = a' ++ sep :: b') : a = a' ∧ b = b' := by
  induction a generalizing a' with
  | nil =>
    cases a' with
    | nil => exact ⟨rfl, (List.cons.inj h).2⟩
    | cons x a' => exact absurd (List.mem_cons.2 (.inl (List.cons.inj h).1)) ha'
  | cons x a ih =>
    cases a' with
    | nil => exact absurd (List.mem_cons.2 (.inl (List.cons.inj h).1.symm)) ha
    | cons x' a' =>
      obtain ⟨rfl, htail⟩ := List.cons.inj h
      obtain ⟨rfl, hb⟩ := ih (fun hm => ha (List.mem_cons_of_mem _ hm))
        (fun hm => ha' (List.mem_cons_of_mem _ hm)) htail
      exact ⟨rfl, hb⟩

variable {l l' : List (List α)}

/-- Parts with a separator behind each. -/
theorem terminated_inj (hl : ∀ x ∈ l, sep ∉ x) (hl' : ∀ x ∈ l', sep ∉ x)
    (h : (l.flatMap fun x => x ++ [sep]) = l'.flatMap fun x => x ++ [sep]) : l = l' := by
  induction l generalizing l' with
  | nil =>
    cases l' with
    | nil => rfl
    | cons x l' => simp at h
  | cons x l ih =>
    cases l' with
    | nil => simp at h
    | cons x' l' =>
      rw [List.flatMap_cons, List.flatMap_cons, List.append_assoc, List.append_assoc] at h
      obtain ⟨rfl, hrest⟩ := append_cons_inj (hl x List.mem_cons_self)
        (hl' x' List.mem_cons_self) h
      rw [ih (fun y hy => hl y (List.mem_cons_of_mem _ hy))
        (fun y hy => hl' y (List.mem_cons_of_mem _ hy)) hrest]

/-- Parts with a separator between them. -/
theorem intercalate_inj (hne : l ≠ []) (hne' : l' ≠ []) (hl : ∀ x ∈ l, sep ∉ x)
    (hl' : ∀ x ∈ l', sep ∉ x) (h : [sep].intercalate l = [sep].intercalate l') : l = l' := by
  have hterminated : ∀ k : List (List α), k ≠ [] →
      (k.flatMap fun x => x ++ [sep]) = [sep].intercalate k ++ [sep] := by
    intro k hk
    induction k with
    | nil => exact absurd rfl hk
    | cons x k ih =>
      cases k with
      | nil => simp
      | cons y k =>
        rw [List.flatMap_cons, ih (List.cons_ne_nil y k), List.intercalate_cons_cons]
        simp only [List.append_assoc]
  refine terminated_inj hl hl' ?_
  rw [hterminated l hne, hterminated l' hne', h]

end Separated
