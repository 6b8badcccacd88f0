import OpsControlPlane.Lib.Undisturbed

/-!
# A service and what it loaded

A service reads its files when it starts, and keeps what it read. `Served` is what is on the disk,
what the service loaded, and whether something else was written since. `Served.InStep` holds after
every write and every start, so that a service to which nothing is left to apply has what is on the
disk; `Prog.Reaches.keeps` carries such an invariant wherever a program stops.
-/

namespace Calls

/-- The files of a service, what it loaded of them, and whether a change is not applied yet. -/
structure Served (κ : Type) where
  (disk loaded : κ)
  unapplied : Bool
deriving DecidableEq

namespace Served

variable {κ : Type}

def write [DecidableEq κ] (v : κ) (s : Served κ) : Served κ :=
  { s with disk := v, unapplied := s.unapplied || decide (v ≠ s.disk) }

/-- The service starts again, and reads its files. -/
def restart (s : Served κ) : Served κ :=
  { s with loaded := s.disk, unapplied := false }

/-- The service has loaded what is on the disk. -/
def Current (s : Served κ) : Prop :=
  s.loaded = s.disk

/-- Unless a change is not applied, the service has loaded what is on the disk. -/
def InStep (s : Served κ) : Prop :=
  s.unapplied = false → s.Current

theorem InStep.write [DecidableEq κ] {s : Served κ} (h : s.InStep) (v : κ) :
    (s.write v).InStep := by
  intro hu
  obtain ⟨hold, hsame⟩ := (Bool.or_eq_false_iff).1 hu
  have hv : v = s.disk := not_not.1 (of_decide_eq_false hsame)
  exact (h hold).trans hv.symm

theorem inStep_restart (s : Served κ) : s.restart.InStep :=
  fun _ => rfl

end Served

namespace Prog

variable {I : Interface} {ε α σ X : Type} {act : (o : I.Op) → X → σ → I.Ans o × σ} {p : Prog I ε α}

theorem Reaches.keeps {J : σ → Prop} (hact : ∀ o x s, J s → J (act o x s).2) {s t : σ}
    (h : Reaches act p s t) (hs : J s) : J t := by
  induction p generalizing s with
  | ret a => exact h ▸ hs
  | fail e => exact h ▸ hs
  | ask o k ih =>
    rcases h with rfl | ⟨x, h⟩
    · exact hs
    · exact ih _ h (hact o x s hs)

theorem finishes_of_ends {s t : σ} {a : α} (h : Ends act p s a t) : Finishes act p s (.ok a) t := by
  induction p generalizing s with
  | ret b =>
    obtain ⟨rfl, rfl⟩ := h
    exact ⟨rfl, rfl⟩
  | fail e => exact h.elim
  | ask o k ih =>
    obtain ⟨x, h⟩ := h
    exact ⟨x, ih _ h⟩

end Prog

end Calls
