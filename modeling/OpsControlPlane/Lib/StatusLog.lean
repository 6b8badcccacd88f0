import Mathlib.Data.List.Infix
import Mathlib.Logic.Function.Basic

/-!
# Logs of statuses

Entities have a status each, and a log has an entry for each change of one of them. `Log.Step` is
what may happen: an entity is created, or a change is recorded and carried out. `Coherent` says that
the entries of an entity lead from the first status to its current one, and every step keeps it
(`Log.Step.coherent`).
-/

namespace StatusLog

variable {ι σ : Type*}

structure Entry (ι σ : Type*) where
  entity : ι
  (previous next : σ)

structure Log (ι σ : Type*) where
  status : ι → Option σ
  entries : List (Entry ι σ)

def Leads (allowed : σ → σ → Prop) : σ → List (Entry ι σ) → σ → Prop
  | s, [], t => s = t
  | s, e :: es, t => e.previous = s ∧ allowed s e.next ∧ Leads allowed e.next es t

variable {allowed : σ → σ → Prop} {initial s t u : σ} {es : List (Entry ι σ)}

theorem Leads.append {es' : List (Entry ι σ)} (h : Leads allowed s es t)
    (h' : Leads allowed t es' u) : Leads allowed s (es ++ es') u := by
  induction es generalizing s with
  | nil =>
    obtain rfl : s = t := h
    exact h'
  | cons e es ih => exact ⟨h.1, h.2.1, ih h.2.2⟩

theorem Leads.snoc {e : Entry ι σ} (h : Leads allowed s es t) (hprevious : e.previous = t)
    (hallowed : allowed t e.next) : Leads allowed s (es ++ [e]) e.next :=
  h.append ⟨hprevious, hallowed, rfl⟩

namespace Log

variable [DecidableEq ι] {l l' : Log ι σ} {i : ι}

def history (l : Log ι σ) (i : ι) : List (Entry ι σ) :=
  l.entries.filter fun e => e.entity = i

inductive Step (allowed : σ → σ → Prop) (initial : σ) (l : Log ι σ) : Log ι σ → Prop
  | keep : Step allowed initial l l
  | create (i : ι) (h : l.status i = none) :
      Step allowed initial l ⟨Function.update l.status i (some initial), l.entries⟩
  | change (e : Entry ι σ) (h : l.status e.entity = some e.previous)
      (hallowed : allowed e.previous e.next) :
      Step allowed initial l
        ⟨Function.update l.status e.entity (some e.next), l.entries ++ [e]⟩

/-- The entries of an entity lead to its status, and one that does not exist has none. -/
structure Coherent (allowed : σ → σ → Prop) (initial : σ) (l : Log ι σ) : Prop where
  leads : ∀ i s, l.status i = some s → Leads allowed initial (l.history i) s
  absent : ∀ i, l.status i = none → l.history i = []

theorem Coherent.empty : Coherent allowed initial (⟨fun _ => none, []⟩ : Log ι σ) :=
  ⟨fun _ _ h => (by cases h), fun _ _ => rfl⟩

theorem history_snoc_self (f : ι → Option σ) (e : Entry ι σ) :
    (⟨f, l.entries ++ [e]⟩ : Log ι σ).history e.entity = l.history e.entity ++ [e] := by
  have hself : ([e] : List (Entry ι σ)).filter (fun e' => e'.entity = e.entity) = [e] := by simp
  rw [history, List.filter_append, hself]
  rfl

theorem history_snoc_ne (f : ι → Option σ) {e : Entry ι σ} (h : i ≠ e.entity) :
    (⟨f, l.entries ++ [e]⟩ : Log ι σ).history i = l.history i := by
  have hnone : ([e] : List (Entry ι σ)).filter (fun e' => e'.entity = i) = [] := by
    simpa using h.symm
  rw [history, List.filter_append, hnone, List.append_nil]
  rfl

theorem Step.coherent (h : Step allowed initial l l') (hl : l.Coherent allowed initial) :
    l'.Coherent allowed initial := by
  cases h with
  | keep => exact hl
  | create i hi =>
    refine ⟨fun j s hj => ?_, fun j hj => ?_⟩ <;> dsimp only at hj
    · by_cases hji : j = i
      · subst hji
        rw [Function.update_self] at hj
        obtain rfl := Option.some.inj hj
        have hhistory : l.history j = [] := hl.absent j hi
        change Leads allowed initial (l.history j) initial
        rw [hhistory]
        rfl
      · rw [Function.update_of_ne hji] at hj
        exact hl.leads j s hj
    · by_cases hji : j = i
      · rw [hji, Function.update_self] at hj
        cases hj
      · rw [Function.update_of_ne hji] at hj
        exact hl.absent j hj
  | change e he hallowed =>
    refine ⟨fun j s hj => ?_, fun j hj => ?_⟩ <;> dsimp only at hj
    · by_cases hje : j = e.entity
      · subst hje
        rw [Function.update_self] at hj
        obtain rfl := Option.some.inj hj
        rw [history_snoc_self]
        exact (hl.leads _ _ he).snoc rfl hallowed
      · rw [Function.update_of_ne hje] at hj
        rw [history_snoc_ne _ hje]
        exact hl.leads j s hj
    · by_cases hje : j = e.entity
      · rw [hje, Function.update_self] at hj
        cases hj
      · rw [Function.update_of_ne hje] at hj
        rw [history_snoc_ne _ hje]
        exact hl.absent j hj

theorem Step.final (h : Step allowed initial l l') (hfinal : ∀ t, allowed s t → t = s)
    (hs : l.status i = some s) : l'.status i = some s := by
  cases h with
  | keep => exact hs
  | create j hj =>
    have hne : i ≠ j := by
      rintro rfl
      rw [hs] at hj
      cases hj
    exact (Function.update_of_ne hne _ _).trans hs
  | change e he hallowed =>
    by_cases hi : i = e.entity
    · rw [← hi, hs] at he
      rw [← Option.some.inj he] at hallowed
      change Function.update l.status e.entity (some e.next) i = some s
      rw [hi, Function.update_self, hfinal _ hallowed]
    · exact (Function.update_of_ne hi _ _).trans hs

end Log

end StatusLog
