import OpsControlPlane.Lib.Calls

/-!
# Programs that may stop anywhere

A program that runs alone may be interrupted between any two of its operations. `Prog.Reaches`
relates a state to those in which it may be found from there. `Prog.Wp` says that the crash
condition holds in each of them, and what holds when the program returns or fails; its rules
follow the program, and `Prog.Wp.crash` and `Prog.Wp.finish` are what it means.
-/

namespace Calls

namespace Prog

variable {I : Interface} {ε α β σ X : Type}

section semantics

variable (act : (o : I.Op) → X → σ → I.Ans o × σ)

/-- From the first state the program may be found in the second. -/
def Reaches : Prog I ε α → σ → σ → Prop
  | ret _, s, s' => s = s'
  | fail _, s, s' => s = s'
  | ask o k, s, s' => s = s' ∨ ∃ x, Reaches (k (act o x s).1) (act o x s).2 s'

/-- From the first state the program comes to its result in the second. -/
def Finishes : Prog I ε α → σ → Except ε α → σ → Prop
  | ret a, s, r, s' => .ok a = r ∧ s = s'
  | fail e, s, r, s' => .error e = r ∧ s = s'
  | ask o k, s, r, s' => ∃ x, Finishes (k (act o x s).1) (act o x s).2 r s'

/-- The crash condition holds wherever the program may be found, and its result satisfies the
postcondition. -/
def Wp (C : σ → Prop) : Prog I ε α → (Except ε α → σ → Prop) → σ → Prop
  | ret a, Q, s => C s ∧ Q (.ok a) s
  | fail e, Q, s => C s ∧ Q (.error e) s
  | ask o k, Q, s => C s ∧ ∀ x, Wp C (k (act o x s).1) Q (act o x s).2

/-- What the program comes to when the environment makes these choices, if they are enough. -/
def play : Prog I ε α → List X → σ → Option (Except ε α × σ)
  | ret a, _, s => some (.ok a, s)
  | fail e, _, s => some (.error e, s)
  | ask _ _, [], _ => none
  | ask o k, x :: xs, s => play (k (act o x s).1) xs (act o x s).2

end semantics

variable {act : (o : I.Op) → X → σ → I.Ans o × σ} {C : σ → Prop}
  {Q Q' : Except ε α → σ → Prop} {s s' : σ}

/-! ## What it means -/

variable {p : Prog I ε α}

theorem Wp.here (h : Wp act C p Q s) : C s := by
  cases p with
  | ret a => exact h.1
  | fail e => exact h.1
  | ask o k => exact h.1

theorem Wp.crash (h : Wp act C p Q s) (hr : Reaches act p s s') : C s' := by
  induction p generalizing s with
  | ret a =>
    obtain rfl : s = s' := hr
    exact h.1
  | fail e =>
    obtain rfl : s = s' := hr
    exact h.1
  | ask o k ih =>
    rcases hr with rfl | ⟨x, hr⟩
    · exact h.1
    · exact ih _ (h.2 x) hr

variable {r : Except ε α}

theorem Wp.finish (h : Wp act C p Q s) (hf : Finishes act p s r s') : Q r s' := by
  induction p generalizing s with
  | ret a =>
    obtain ⟨rfl, rfl⟩ := hf
    exact h.2
  | fail e =>
    obtain ⟨rfl, rfl⟩ := hf
    exact h.2
  | ask o k ih =>
    obtain ⟨x, hf⟩ := hf
    exact ih _ (h.2 x) hf

theorem reaches_of_finishes (h : Finishes act p s r s') : Reaches act p s s' := by
  induction p generalizing s with
  | ret a => exact h.2
  | fail e => exact h.2
  | ask o k ih =>
    obtain ⟨x, h⟩ := h
    exact .inr ⟨x, ih _ h⟩

theorem finishes_of_run {x : X} {a : α} (h : p.run act x s = some (a, s')) :
    Finishes act p s (.ok a) s' := by
  induction p generalizing s with
  | ret b =>
    obtain ⟨rfl, rfl⟩ := Prod.mk.inj (Option.some.inj h)
    exact ⟨rfl, rfl⟩
  | fail e => cases h
  | ask o k ih => exact ⟨x, ih _ h⟩

theorem finishes_of_play {xs : List X} (h : play act p xs s = some (r, s')) :
    Finishes act p s r s' := by
  induction p generalizing s xs with
  | ret a => exact Prod.mk.inj (Option.some.inj h)
  | fail e => exact Prod.mk.inj (Option.some.inj h)
  | ask o k ih =>
    cases xs with
    | nil => cases h
    | cons x xs => exact ⟨x, ih _ h⟩

variable {t : σ} {R' : Except ε β}

theorem Finishes.bind {a : α} {f : α → Prog I ε β} (h : Finishes act p s (.ok a) s')
    (h' : Finishes act (f a) s' R' t) : Finishes act (p >>= f) s R' t := by
  induction p generalizing s with
  | ret b =>
    obtain ⟨ha, rfl⟩ := h
    cases ha
    exact h'
  | fail e => cases h.1
  | ask o k ih =>
    obtain ⟨x, h⟩ := h
    exact ⟨x, ih _ h⟩

theorem Finishes.attempt (h : Finishes act p s r s') :
    Finishes act (attempt p) s (.ok r) s' := by
  induction p generalizing s with
  | ret a => exact ⟨congrArg Except.ok h.1, h.2⟩
  | fail e => exact ⟨congrArg Except.ok h.1, h.2⟩
  | ask o k ih =>
    obtain ⟨x, h⟩ := h
    exact ⟨x, ih _ h⟩

/-! ## Rules -/

theorem Wp.mono (h : Wp act C p Q s) (hQ : ∀ r t, C t → Q r t → Q' r t) : Wp act C p Q' s := by
  induction p generalizing s with
  | ret a => exact ⟨h.1, hQ _ _ h.1 h.2⟩
  | fail e => exact ⟨h.1, hQ _ _ h.1 h.2⟩
  | ask o k ih => exact ⟨h.1, fun x => ih _ (h.2 x)⟩

theorem Wp.weaken {D : σ → Prop} (h : Wp act C p Q s) (hC : ∀ t, C t → D t) :
    Wp act D p (fun r t => C t ∧ Q r t) s := by
  induction p generalizing s with
  | ret a => exact ⟨hC _ h.1, h⟩
  | fail e => exact ⟨hC _ h.1, h⟩
  | ask o k ih => exact ⟨hC _ h.1, fun x => ih _ (h.2 x)⟩

theorem Wp.and {C' : σ → Prop} (h : Wp act C p Q s) (h' : Wp act C' p Q' s) :
    Wp act (fun t => C t ∧ C' t) p (fun r t => Q r t ∧ Q' r t) s := by
  induction p generalizing s with
  | ret a => exact ⟨⟨h.1, h'.1⟩, h.2, h'.2⟩
  | fail e => exact ⟨⟨h.1, h'.1⟩, h.2, h'.2⟩
  | ask o k ih => exact ⟨⟨h.1, h'.1⟩, fun x => ih _ (h.2 x) (h'.2 x)⟩

/-- What holds of a program holds of it in a state that has more, when the rest is not read. -/
theorem Wp.lift {τ Y : Type} {act' : (o : I.Op) → Y → τ → I.Ans o × τ} {f : τ → σ} {g : Y → X}
    (hact : ∀ o y t, (act' o y t).1 = (act o (g y) (f t)).1 ∧
      f (act' o y t).2 = (act o (g y) (f t)).2) {t : τ} (h : Wp act C p Q (f t)) :
    Wp act' (fun u => C (f u)) p (fun r u => Q r (f u)) t := by
  induction p generalizing t with
  | ret a => exact h
  | fail e => exact h
  | ask o k ih =>
    refine ⟨h.1, fun y => ?_⟩
    obtain ⟨hanswer, hstate⟩ := hact o y t
    have hnext := h.2 (g y)
    rw [← hstate, ← hanswer] at hnext
    exact ih _ hnext

theorem wp_pure {a : α} (hC : C s) (hQ : Q (.ok a) s) :
    Wp act C (pure a : Prog I ε α) Q s :=
  ⟨hC, hQ⟩

theorem wp_fail {e : ε} (hC : C s) (hQ : Q (.error e) s) : Wp act C (fail e : Prog I ε α) Q s :=
  ⟨hC, hQ⟩

/-- Go on with what the first program returns, and fail as it fails. -/
theorem wp_bind {f : α → Prog I ε β} {Q : Except ε β → σ → Prop}
    (h : Wp act C p (fun r t => match r with
      | .ok a => Wp act C (f a) Q t
      | .error e => Q (.error e) t) s) : Wp act C (p >>= f) Q s := by
  induction p generalizing s with
  | ret a => exact h.2
  | fail e => exact h
  | ask o k ih => exact ⟨h.1, fun x => ih _ (h.2 x)⟩

theorem wp_attempt {Q : Except ε (Except ε α) → σ → Prop}
    (h : Wp act C p (fun r t => Q (.ok r) t) s) : Wp act C (attempt p) Q s := by
  induction p generalizing s with
  | ret a => exact h
  | fail e => exact h
  | ask o k ih => exact ⟨h.1, fun x => ih _ (h.2 x)⟩

theorem wp_ofExcept (hC : C s) (hQ : Q r s) : Wp act C (ofExcept r) Q s := by
  cases r with
  | ok a => exact ⟨hC, hQ⟩
  | error e => exact ⟨hC, hQ⟩

theorem wp_op {o : I.Op} {f : I.Ans o → Except ε α} (hC : C s)
    (h : ∀ x, C (act o x s).2 ∧ Q (f (act o x s).1) (act o x s).2) :
    Wp act C (Prog.perform o >>= fun a => ofExcept (f a)) Q s :=
  ⟨hC, fun x => wp_ofExcept (h x).1 (h x).2⟩

end Prog

end Calls
