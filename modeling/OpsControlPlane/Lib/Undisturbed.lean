import OpsControlPlane.Lib.CrashLogic

/-!
# Programs that nothing disturbs

`Prog.exec` is the result of a program, and the state after it, when the environment makes the
same choice at each operation. It follows the program, and `Prog.exec_finishes` says that it is one
of the ways in which the program ends.
-/

namespace Calls

namespace Prog

variable {I : Interface} {ε α β σ X : Type}

/-- The result of a program and the state after it, with the same choice at each operation. -/
def exec (act : (o : I.Op) → X → σ → I.Ans o × σ) (x : X) :
    Prog I ε α → σ → Except ε α × σ
  | ret a, s => (.ok a, s)
  | fail e, s => (.error e, s)
  | ask o k, s => exec act x (k (act o x s).1) (act o x s).2

variable {act : (o : I.Op) → X → σ → I.Ans o × σ} {x : X}

/-- Go on with what the first program returns, and fail as it fails. -/
theorem exec_bind (p : Prog I ε α) (f : α → Prog I ε β) (s : σ) :
    exec act x (p >>= f) s = match exec act x p s with
      | (.ok a, t) => exec act x (f a) t
      | (.error e, t) => (.error e, t) := by
  induction p generalizing s with
  | ret a => rfl
  | fail e => rfl
  | ask o k ih => exact ih _ _

variable {p : Prog I ε α} {f : α → Prog I ε β} {s t : σ}

theorem exec_bind_ok {a : α} (h : exec act x p s = (.ok a, t)) :
    exec act x (p >>= f) s = exec act x (f a) t := by
  rw [exec_bind, h]

theorem exec_bind_error {e : ε} (h : exec act x p s = (.error e, t)) :
    exec act x (p >>= f) s = (.error e, t) := by
  rw [exec_bind, h]

theorem exec_attempt (p : Prog I ε α) (s : σ) :
    exec act x (attempt p) s = (.ok (exec act x p s).1, (exec act x p s).2) := by
  induction p generalizing s with
  | ret a => rfl
  | fail e => rfl
  | ask o k ih => exact ih _ _

theorem exec_attempt_eq {r : Except ε α} (h : exec act x p s = (r, t)) :
    exec act x (attempt p) s = (.ok r, t) := by
  rw [exec_attempt, h]

@[simp] theorem exec_pure (a : α) (s : σ) :
    exec act x (pure a : Prog I ε α) s = (.ok a, s) :=
  rfl

@[simp] theorem exec_ofExcept (r : Except ε α) (s : σ) :
    exec act x (ofExcept r) s = (r, s) := by
  cases r with
  | ok a => rfl
  | error e => rfl

theorem exec_finishes (p : Prog I ε α) (s : σ) :
    Finishes act p s (exec act x p s).1 (exec act x p s).2 := by
  induction p generalizing s with
  | ret a => exact ⟨rfl, rfl⟩
  | fail e => exact ⟨rfl, rfl⟩
  | ask o k ih => exact ⟨x, ih _ _⟩

/-! ## Stopping on the way -/

theorem reaches_refl (p : Prog I ε α) (s : σ) : Reaches act p s s := by
  cases p with
  | ret a => rfl
  | fail e => rfl
  | ask o k => exact .inl rfl

theorem Reaches.bind (h : Reaches act p s t) (f : α → Prog I ε β) : Reaches act (p >>= f) s t := by
  induction p generalizing s with
  | ret a =>
    obtain rfl : s = t := h
    exact reaches_refl (f a) s
  | fail e => exact h
  | ask o k ih =>
    rcases h with rfl | ⟨y, h⟩
    · exact .inl rfl
    · exact .inr ⟨y, ih _ h⟩

theorem Reaches.attempt (h : Reaches act p s t) : Reaches act (attempt p) s t := by
  induction p generalizing s with
  | ret a => exact h
  | fail e => exact h
  | ask o k ih =>
    rcases h with rfl | ⟨y, h⟩
    · exact .inl rfl
    · exact .inr ⟨y, ih _ h⟩

/-- Where a program is found after these choices. -/
def stopAfter (act : (o : I.Op) → X → σ → I.Ans o × σ) : Prog I ε α → List X → σ → σ
  | ask o k, x :: xs, s => stopAfter act (k (act o x s).1) xs (act o x s).2
  | _, _, s => s

theorem reaches_stopAfter (p : Prog I ε α) (xs : List X) (s : σ) :
    Reaches act p s (stopAfter act p xs s) := by
  induction p generalizing xs s with
  | ret a => exact rfl
  | fail e => exact rfl
  | ask o k ih =>
    cases xs with
    | nil => exact .inl rfl
    | cons x xs => exact .inr ⟨x, ih _ xs _⟩

theorem reaches_bind_of_exec {u : σ} {a : α} (h : exec act x p s = (.ok a, t))
    (hr : Reaches act (f a) t u) : Reaches act (p >>= f) s u := by
  induction p generalizing s with
  | ret b =>
    obtain ⟨hb, rfl⟩ := Prod.mk.inj h
    rw [← Except.ok.inj hb] at hr
    exact hr
  | fail e => cases h
  | ask o k ih => exact .inr ⟨x, ih _ h⟩

end Prog

end Calls
