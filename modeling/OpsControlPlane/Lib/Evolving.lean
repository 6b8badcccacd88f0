import OpsControlPlane.Lib.Calls
import OpsControlPlane.Lib.Transaction

/-!
# Tables whose rows stay

A table evolves along a relation if each of its rows stays in its place, related to what it was, and
new rows come behind. Updates and insertions do so (`Evolves.update`, `Evolves.append`), such as an
update of rows that are not done yet (`Evolves.freeze`), and what each operation does to the store,
a run does from any of its moments on (`Run.relates`).
-/

namespace Transaction

variable {R : Type*} {rel : R → R → Prop} {t t' t'' : List R}

/-- The rows stay in their places, each related to what it was. -/
def Evolves (rel : R → R → Prop) (t t' : List R) : Prop :=
  ∀ (i : ℕ) (r : R), t[i]? = some r → ∃ r', t'[i]? = some r' ∧ rel r r'

namespace Evolves

theorem refl (hrel : ∀ r, rel r r) (t : List R) : Evolves rel t t :=
  fun _ r hr => ⟨r, hr, hrel r⟩

theorem trans (hrel : ∀ r r' r'', rel r r' → rel r' r'' → rel r r'') (h : Evolves rel t t')
    (h' : Evolves rel t' t'') : Evolves rel t t'' := by
  intro i r hr
  obtain ⟨r', hr', hrr'⟩ := h i r hr
  obtain ⟨r'', hr'', hrr''⟩ := h' i r' hr'
  exact ⟨r'', hr'', hrel _ _ _ hrr' hrr''⟩

theorem mono {rel' : R → R → Prop} (h : Evolves rel t t') (hrel : ∀ r r', rel r r' → rel' r r') :
    Evolves rel' t t' := by
  intro i r hr
  obtain ⟨r', hr', hrr'⟩ := h i r hr
  exact ⟨r', hr', hrel r r' hrr'⟩

theorem append (h : Evolves rel t t') (u : List R) : Evolves rel t (t' ++ u) := by
  intro i r hr
  obtain ⟨r', hr', hrel⟩ := h i r hr
  exact ⟨r', List.getElem?_append_left (List.getElem?_eq_some_iff.1 hr').1 ▸ hr', hrel⟩

theorem map {f : R → R} (hf : ∀ r ∈ t, rel r (f r)) : Evolves rel t (t.map f) :=
  fun i r hr => ⟨f r, by rw [List.getElem?_map, hr, Option.map_some],
    hf r (List.mem_of_getElem? hr)⟩

theorem update {p : R → Bool} {f : R → R} (hrel : ∀ r, rel r r)
    (hf : ∀ r ∈ t, p r = true → rel r (f r)) : Evolves rel t (update p f t) := by
  refine map fun r hr => ?_
  split_ifs with hp
  · exact hf r hr hp
  · exact hrel r

theorem mem (h : Evolves rel t t') {r : R} (hr : r ∈ t) : ∃ r' ∈ t', rel r r' := by
  obtain ⟨i, hi⟩ := List.mem_iff_getElem?.1 hr
  obtain ⟨r', hr', hrel⟩ := h i r hi
  exact ⟨r', List.mem_of_getElem? hr', hrel⟩

theorem mem_of_length (h : Evolves rel t t') (hlen : t'.length = t.length) {r' : R}
    (hr' : r' ∈ t') : ∃ r ∈ t, rel r r' := by
  obtain ⟨i, hi, rfl⟩ := List.mem_iff_getElem.1 hr'
  obtain ⟨r'', hr'', hrel⟩ := h i t[i] (List.getElem?_eq_getElem (hlen ▸ hi))
  obtain rfl := Option.some.inj ((List.getElem?_eq_getElem hi).symm.trans hr'')
  exact ⟨_, List.getElem_mem _, hrel⟩

end Evolves

def Freezes {κ : Type*} (terms : R → κ) (done : R → Prop) (r r' : R) : Prop :=
  terms r' = terms r ∧ (done r → r' = r)

variable {κ : Type*} {terms : R → κ} {done : R → Prop}

theorem Freezes.refl (r : R) : Freezes terms done r r :=
  ⟨rfl, fun _ => rfl⟩

theorem Freezes.trans (r r' r'' : R) (h : Freezes terms done r r')
    (h' : Freezes terms done r' r'') : Freezes terms done r r'' := by
  refine ⟨h'.1.trans h.1, fun hdone => ?_⟩
  obtain rfl := h.2 hdone
  exact h'.2 hdone

theorem Evolves.freeze {p : R → Bool} {f : R → R} (hf : ∀ r, terms (f r) = terms r)
    (hp : ∀ r, p r = true → ¬done r) (t : List R) :
    Evolves (Freezes terms done) t (Transaction.update p f t) :=
  .update .refl fun r _ hr => ⟨hf r, fun hdone => absurd hdone (hp r hr)⟩

end Transaction

namespace Calls

variable {S : System} {s₀ s : State S} {ms : List (Moment S)} {K : S.Store → Prop}
  {R : S.Store → S.Store → Prop}

/-- What each operation does to a store of the invariant, a run does from each moment on. -/
theorem Run.relates (hrefl : ∀ st, R st st)
    (htrans : ∀ st st' st'', R st st' → R st' st'' → R st st'') (h₀ : K s₀.store)
    (hop : ∀ o x st, K st → K (S.perform o x st).2 ∧ R st (S.perform o x st).2)
    (hr : Run s₀ ms s) : ∀ m ∈ ms, R m.before.store s.store := by
  intro m hm
  obtain ⟨ms₁, ms₂, rfl, hbefore, hstep⟩ := hr.of_mem hm
  obtain ⟨-, -, hrest⟩ := hr.around
  have hK : K m.before.store := hbefore.store h₀ fun o x st h => (hop o x st h).1
  have hrun : Run m.before _ s := .trans (.step .start hstep) hrest
  exact (hrun.store (K := fun st => K st ∧ R m.before.store st) ⟨hK, hrefl _⟩ fun o x st h =>
    ⟨(hop o x st h.1).1, htrans _ _ _ h.2 (hop o x st h.1).2⟩).2

end Calls
